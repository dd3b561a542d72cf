import Mathlib.Algebra.Group.Nat.Defs
import Mathlib.Data.Fin.Basic
import Mathlib.Data.List.Induction

/-! Decimal digits of fixed width, the most significant first. -/
namespace Decimal

/-- A digit may be written as a numeral. -/
instance tenNeZero : @NeZero Nat Zero.ofOfNat0 10 := ⟨Nat.succ_ne_zero 9⟩

/-- The number that digits denote. -/
def value (digits : List (Fin 10)) : Nat := digits.foldl (fun n d => 10 * n + d.val) 0

/-- The last `width` digits of a number. -/
def digits : Nat → Nat → List (Fin 10)
  | 0, _ => []
  | width + 1, n => digits width (n / 10) ++ [Fin.ofNat 10 n]

end Decimal
