import PwshHost.Xml.Text

/-! The parts of the Rust standard library that the decoders use. -/
namespace Rust

open Xml (Text)

/-- How a function stops without returning. -/
inductive Panic (ε : Type) where
  | unwrapNone
  | unwrapErr (e : ε)
  | errorAt (position : Nat) (e : ε)
  | overflow

variable {ε α : Type}

def unwrap : Option α → Except (Panic ε) α
  | some a => .ok a
  | none => .error .unwrapNone

def unwrapOk : Except ε α → Except (Panic ε) α
  | .ok a => .ok a
  | .error e => .error (.unwrapErr e)

/-- A machine integer type, by the range of its values. -/
def Bounded (lo hi : Int) : Type := { i : Int // lo ≤ i ∧ i ≤ hi }

instance (lo hi : Int) : DecidableEq (Bounded lo hi) :=
  inferInstanceAs (DecidableEq { i : Int // lo ≤ i ∧ i ≤ hi })

abbrev U8 := Bounded 0 255
abbrev I8 := Bounded (-128) 127
abbrev U16 := Bounded 0 65535
abbrev I16 := Bounded (-32768) 32767
abbrev U32 := Bounded 0 4294967295
abbrev I32 := Bounded (-2147483648) 2147483647
abbrev U64 := Bounded 0 18446744073709551615
abbrev I64 := Bounded (-9223372036854775808) 9223372036854775807

def Bounded.ofInt (lo hi i : Int) : Option (Bounded lo hi) :=
  if h : lo ≤ i ∧ i ≤ hi then some ⟨i, h⟩ else none

def digit (c : Char) : Option Nat :=
  if '0' ≤ c ∧ c ≤ '9' then some (c.toNat - '0'.toNat) else none

/-- Continue a decimal number with more digits. -/
def parseDigits : Nat → Text → Option Nat
  | n, [] => some n
  | n, c :: s => (digit c).bind fun d => parseDigits (10 * n + d) s

def parseNat : Text → Option Nat
  | [] => none
  | s => parseDigits 0 s

/-- `str::parse` at an integer type. A minus sign is a sign only at the signed
types, and a sign needs a digit after it. -/
def parseInt (lo hi : Int) : Text → Option (Bounded lo hi)
  | '+' :: s => (parseNat s).bind fun n => Bounded.ofInt lo hi n
  | '-' :: s => if lo < 0 then (parseNat s).bind fun n => Bounded.ofInt lo hi (-n) else none
  | s => (parseNat s).bind fun n => Bounded.ofInt lo hi n

/-- `str::parse::<bool>`. -/
def parseBool (s : Text) : Option Bool :=
  if s = ['t', 'r', 'u', 'e'] then some true
  else if s = ['f', 'a', 'l', 's', 'e'] then some false
  else none

def isHighSurrogate (u : U16) : Bool := 0xD800 ≤ u.val && u.val ≤ 0xDBFF

def isLowSurrogate (u : U16) : Bool := 0xDC00 ≤ u.val && u.val ≤ 0xDFFF

def isSurrogate (u : U16) : Bool := isHighSurrogate u || isLowSurrogate u

/-- `char::decode_utf16`: an unpaired surrogate is reported in its place. -/
def decodeUtf16 : List U16 → List (Except U16 Char)
  | [] => []
  | [u] => [if isSurrogate u then .error u else .ok (Char.ofNat u.val.toNat)]
  | u :: v :: rest =>
    if isHighSurrogate u && isLowSurrogate v then
      .ok (Char.ofNat (0x10000 + (u.val.toNat - 0xD800) * 0x400 + (v.val.toNat - 0xDC00))) ::
        decodeUtf16 rest
    else
      (if isSurrogate u then .error u else .ok (Char.ofNat u.val.toNat)) :: decodeUtf16 (v :: rest)

/-- `std::time::Duration`. -/
structure Duration where
  secs : U64
  nanos : Bounded 0 999999999
  deriving DecidableEq

end Rust
