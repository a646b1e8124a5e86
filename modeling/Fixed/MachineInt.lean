import Mathlib.Algebra.Ring.Int.Defs
import Mathlib.Algebra.Ring.Nat
import Mathlib.Tactic.Common

/-!
The values of a C `int` of 32 bits. A result outside the range is reduced into it,
as two's complement arithmetic does; what the language leaves undefined is told by
the range. Results in the range are exact.
-/
namespace Fixed.MachineInt

def InInt (x : ℤ) : Prop := -2 ^ 31 ≤ x ∧ x < 2 ^ 31

instance (x : ℤ) : Decidable (InInt x) := inferInstanceAs (Decidable (_ ∧ _))

def int (x : ℤ) : ℤ := x.bmod (2 ^ 32)

theorem int_of_inInt {x : ℤ} (h : InInt x) : int x = x := by
  obtain ⟨hlo, hhi⟩ := h
  exact Int.bmod_eq_of_le (by omega) (by omega)

end Fixed.MachineInt
