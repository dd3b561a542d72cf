import Mathlib.Data.Char
import Mathlib.Data.List.TakeWhile

/-! The two encodings of text, with decoders that replace what is ill-formed.
Each decoder inverts its encoder. -/
namespace Unicode

/-- U+FFFD. -/
def replacement : Char := Char.ofNat 0xFFFD

namespace Utf8

def encode (s : List Char) : List UInt8 := s.flatMap String.utf8EncodeChar

theorem encode_cons (c : Char) (s : List Char) :
    encode (c :: s) = String.utf8EncodeChar c ++ encode s := rfl

/-- Texts are encoded one after another, without a state between them. -/
theorem encode_append (s t : List Char) : encode (s ++ t) = encode s ++ encode t :=
  List.flatMap_append

/-- How many bytes follow a first byte, and the range of the second one. -/
def following (b : UInt8) : Option (Nat × UInt8 × UInt8) :=
  if 0xC2 ≤ b ∧ b ≤ 0xDF then some (1, 0x80, 0xBF)
  else if b = 0xE0 then some (2, 0xA0, 0xBF)
  else if b = 0xED then some (2, 0x80, 0x9F)
  else if 0xE1 ≤ b ∧ b ≤ 0xEF then some (2, 0x80, 0xBF)
  else if b = 0xF0 then some (3, 0x90, 0xBF)
  else if 0xF1 ≤ b ∧ b ≤ 0xF3 then some (3, 0x80, 0xBF)
  else if b = 0xF4 then some (3, 0x80, 0x8F)
  else none

/-- How many bytes after the first one are replaced with it: those that could
have gone on to a character. -/
def spoilt (b : UInt8) (rest : List UInt8) : Nat :=
  match following b, rest with
  | some (n, lo, hi), c :: rest =>
    if lo ≤ c ∧ c ≤ hi then
      1 + ((rest.take (n - 1)).takeWhile fun d => 0x80 ≤ d ∧ d ≤ 0xBF).length
    else 0
  | _, _ => 0

/-- The character that the bytes begin with. -/
def first (bytes : List UInt8) : Option Char := bytes.toByteArray.utf8DecodeChar? 0

/-- The recursion on the bytes ends: each step takes at least one of them. -/
theorem length_drop_lt (b : UInt8) (rest : List UInt8) (n : Nat) :
    (rest.drop n).length < (b :: rest).length := by
  rw [List.length_drop, List.length_cons]
  omega

def decodeLossy : List UInt8 → List Char
  | [] => []
  | b :: rest =>
    match first (b :: rest) with
    | some c => c :: decodeLossy (rest.drop (c.utf8Size - 1))
    | none => replacement :: decodeLossy (rest.drop (spoilt b rest))
termination_by bytes => bytes.length
decreasing_by all_goals exact length_drop_lt _ _ _

/-- The first scalar value of encoded text is its first character, whatever comes
after it. -/
theorem first_encode (c : Char) (s : List Char) : first (encode (c :: s)) = some c := by
  rw [first, encode_cons, List.toByteArray_append]
  exact ByteArray.utf8DecodeChar?_utf8EncodeChar_append

/-- Nothing is replaced in what was encoded. -/
theorem decodeLossy_encode (s : List Char) : decodeLossy (encode s) = s := by
  induction s with
  | nil => simp [encode, decodeLossy]
  | cons c s ih =>
      have hFirst := first_encode c s
      cases hChar : String.utf8EncodeChar c with
      | nil => exact absurd hChar String.utf8EncodeChar_ne_nil
      | cons b tail =>
          have hLength : c.utf8Size - 1 = tail.length := by
            rw [← String.length_utf8EncodeChar, hChar]
            simp
          rw [encode_cons, hChar, List.cons_append] at hFirst ⊢
          rw [decodeLossy, hFirst]
          change c :: decodeLossy ((tail ++ encode s).drop (c.utf8Size - 1)) = c :: s
          rw [hLength, List.drop_left, ih]

/-- The null character, and the only one with a zero byte in it. -/
theorem zero_mem_utf8EncodeChar (c : Char) :
    0 ∈ String.utf8EncodeChar c ↔ c = Char.ofNat 0 := by
  constructor
  · intro h
    have hBound : c.val.toNat < 0x110000 := by
      have := c.valid
      rcases this with h | h <;> omega
    have hZero : c.val.toNat = 0 := by
      unfold String.utf8EncodeChar at h
      dsimp only at h
      split_ifs at h <;>
        simp only [List.mem_cons, List.not_mem_nil, or_false, ← UInt8.toNat_inj,
          UInt8.toNat_ofNat, UInt8.toNat_ofNat'] at h <;> omega
    exact Char.ext (UInt32.toNat_inj.mp hZero)
  · rintro rfl
    decide

/-- What comes before the first zero byte is what was before the null character. -/
theorem takeWhile_encode (s : List Char) :
    (encode s).takeWhile (· ≠ 0) = encode (s.takeWhile (· ≠ Char.ofNat 0)) := by
  induction s with
  | nil => rfl
  | cons c s ih =>
      by_cases hNull : c = Char.ofNat 0
      · subst hNull
        have hChar : String.utf8EncodeChar (Char.ofNat 0) = [0] := by decide
        rw [encode_cons, hChar]
        simp [encode]
      · have hChar : ∀ b ∈ String.utf8EncodeChar c, decide (b ≠ 0) = true := by
          intro b hb
          rw [decide_eq_true_eq]
          rintro rfl
          exact hNull ((zero_mem_utf8EncodeChar c).mp hb)
        rw [encode_cons, List.takeWhile_append_of_pos hChar, ih,
          List.takeWhile_cons_of_pos (by simpa using hNull), encode_cons]

/-- A zero byte stands for the null character only: the bytes of every other
character are nonzero. -/
theorem zero_mem_encode (s : List Char) : 0 ∈ encode s ↔ Char.ofNat 0 ∈ s := by
  simp [encode, List.mem_flatMap, zero_mem_utf8EncodeChar]

end Utf8

namespace Utf16

/-- A character beyond the first plane is a pair of surrogates. -/
def encodeChar (c : Char) : List UInt16 :=
  if c.toNat < 0x10000 then [UInt16.ofNat c.toNat]
  else [UInt16.ofNat (0xD800 + (c.toNat - 0x10000) / 0x400),
    UInt16.ofNat (0xDC00 + (c.toNat - 0x10000) % 0x400)]

def encode (s : List Char) : List UInt16 := s.flatMap encodeChar

def isHigh (u : UInt16) : Bool := 0xD800 ≤ u.toNat && u.toNat < 0xDC00

def isLow (u : UInt16) : Bool := 0xDC00 ≤ u.toNat && u.toNat < 0xE000

/-- A surrogate outside of a pair is replaced. -/
def decodeLossy : List UInt16 → List Char
  | [] => []
  | [u] => [if isHigh u || isLow u then replacement else Char.ofNat u.toNat]
  | u :: v :: rest =>
    if isHigh u then
      if isLow v then
        Char.ofNat (0x10000 + (u.toNat - 0xD800) * 0x400 + (v.toNat - 0xDC00)) :: decodeLossy rest
      else replacement :: decodeLossy (v :: rest)
    else if isLow u then replacement :: decodeLossy (v :: rest)
    else Char.ofNat u.toNat :: decodeLossy (v :: rest)

/-- A unit that is no surrogate is a character by itself. -/
theorem decodeLossy_single {u : UInt16} (hHigh : isHigh u = false) (hLow : isLow u = false)
    (rest : List UInt16) :
    decodeLossy (u :: rest) = Char.ofNat u.toNat :: decodeLossy rest := by
  cases rest with
  | nil => simp [decodeLossy, hHigh, hLow]
  | cons v rest => simp [decodeLossy, hHigh, hLow]

/-- A high surrogate before a low one is one character beyond the first plane. -/
theorem decodeLossy_pair {u v : UInt16} (hHigh : isHigh u = true) (hLow : isLow v = true)
    (rest : List UInt16) : decodeLossy (u :: v :: rest) =
      Char.ofNat (0x10000 + (u.toNat - 0xD800) * 0x400 + (v.toNat - 0xDC00)) ::
        decodeLossy rest := by
  simp [decodeLossy, hHigh, hLow]

/-- The units of a character are decoded to it, also where they are a pair. -/
theorem decodeLossy_encodeChar (c : Char) (rest : List UInt16) :
    decodeLossy (encodeChar c ++ rest) = c :: decodeLossy rest := by
  have hValid : c.toNat < 0xD800 ∨ 0xDFFF < c.toNat ∧ c.toNat < 0x110000 := c.valid
  by_cases hPlane : c.toNat < 0x10000
  · have hUnit : (UInt16.ofNat c.toNat).toNat = c.toNat := by
      rw [UInt16.toNat_ofNat']
      exact Nat.mod_eq_of_lt hPlane
    have hHigh : isHigh (UInt16.ofNat c.toNat) = false := by
      rw [isHigh, hUnit]
      simp
      omega
    have hLow : isLow (UInt16.ofNat c.toNat) = false := by
      rw [isLow, hUnit]
      simp
      omega
    rw [encodeChar, if_pos hPlane, List.singleton_append, decodeLossy_single hHigh hLow, hUnit,
      Char.ofNat_toNat]
  · have hUnit : (UInt16.ofNat (0xD800 + (c.toNat - 0x10000) / 0x400)).toNat =
        0xD800 + (c.toNat - 0x10000) / 0x400 := by
      rw [UInt16.toNat_ofNat']
      exact Nat.mod_eq_of_lt (by omega)
    have hNext : (UInt16.ofNat (0xDC00 + (c.toNat - 0x10000) % 0x400)).toNat =
        0xDC00 + (c.toNat - 0x10000) % 0x400 := by
      rw [UInt16.toNat_ofNat']
      exact Nat.mod_eq_of_lt (by omega)
    have hHigh : isHigh (UInt16.ofNat (0xD800 + (c.toNat - 0x10000) / 0x400)) = true := by
      rw [isHigh, hUnit]
      simp
      omega
    have hLow : isLow (UInt16.ofNat (0xDC00 + (c.toNat - 0x10000) % 0x400)) = true := by
      rw [isLow, hNext]
      simp
      omega
    have hChar : 0x10000 + (0xD800 + (c.toNat - 0x10000) / 0x400 - 0xD800) * 0x400 +
        (0xDC00 + (c.toNat - 0x10000) % 0x400 - 0xDC00) = c.toNat := by omega
    rw [encodeChar, if_neg hPlane, List.cons_append, List.singleton_append,
      decodeLossy_pair hHigh hLow, hUnit, hNext, hChar, Char.ofNat_toNat]

/-- Nothing is replaced in what was encoded. -/
theorem decodeLossy_encode (s : List Char) : decodeLossy (encode s) = s := by
  induction s with
  | nil => rfl
  | cons c s ih =>
      change decodeLossy (encodeChar c ++ encode s) = c :: s
      rw [decodeLossy_encodeChar, ih]

end Utf16

end Unicode
