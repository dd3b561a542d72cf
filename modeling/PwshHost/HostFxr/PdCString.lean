import PwshHost.Unicode.Encoding
import Mathlib.Data.List.Basic

/-! The strings that the native side gets where a unit is a byte. A zero byte ends
one, so none can be in it. -/
namespace PwshHost.HostFxr

open Unicode

/-- Where the first zero byte is, and the bytes that it is in. -/
structure NulError where
  nulPosition : Nat
  vec : List UInt8
  deriving DecidableEq

/-- `PdCString` over a `CString`. -/
structure PdCString where
  inner : List UInt8
  noNul : 0 ∉ inner

namespace PdCString

def fromVec (vec : List UInt8) : Except NulError PdCString :=
  if h : 0 ∈ vec then .error ⟨vec.idxOf 0, vec⟩ else .ok ⟨vec, h⟩

def intoVec (s : PdCString) : List UInt8 := s.inner

def intoVecWithNul (s : PdCString) : List UInt8 := s.inner ++ [0]

/-- `pdcstr!`, which compiles only for a text without a null character. -/
def pdcstr (expression : String) (h : Char.ofNat 0 ∉ expression.toList) : PdCString :=
  ⟨Utf8.encode expression.toList, fun hZero => h ((Utf8.zero_mem_encode _).mp hZero)⟩

/-- What `as_ptr` points to, up to where a native function reads. -/
def readPtr (s : PdCString) : List UInt8 := s.intoVecWithNul.takeWhile (· ≠ 0)

/-- The native side reads what is in the string. -/
theorem readPtr_eq (s : PdCString) : s.readPtr = s.intoVec := by
  have hAll : ∀ unit ∈ s.inner, decide (unit ≠ 0) = true := by
    intro unit hMem
    rw [decide_eq_true_eq]
    rintro rfl
    exact s.noNul hMem
  rw [readPtr, intoVecWithNul, List.takeWhile_append_of_pos hAll]
  simp [intoVec]

/-- A literal is read as it is written. -/
theorem decodeLossy_readPtr_pdcstr (expression : String)
    (h : Char.ofNat 0 ∉ expression.toList) :
    Utf8.decodeLossy (pdcstr expression h).readPtr = expression.toList := by
  rw [readPtr_eq]
  exact Utf8.decodeLossy_encode expression.toList

end PdCString

end PwshHost.HostFxr
