import Mathlib.Algebra.Order.Floor.Ring
import Mathlib.Tactic.Ring

/-!
Truncation towards zero in an ordered field with a floor. It commutes with
negation, and truncating a quotient by a positive number is the truncating
division of the truncated dividend. So the quotient and the remainder of the
truncation of a scaled number put that truncation together again.
-/
namespace Fixed.Truncation

variable {K : Type*} [Field K] [LinearOrder K] [FloorRing K]

/-- The integer part of a number, rounded towards zero. -/
def trunc (a : K) : ℤ := if 0 ≤ a then ⌊a⌋ else ⌈a⌉

theorem trunc_of_nonneg {a : K} (h : 0 ≤ a) : trunc a = ⌊a⌋ := by
  simp only [trunc, if_pos h]

theorem trunc_of_neg {a : K} (h : a < 0) : trunc a = ⌈a⌉ := by
  simp only [trunc, if_neg (not_le.mpr h)]

variable [IsStrictOrderedRing K]

theorem trunc_neg (a : K) : trunc (-a) = -trunc a := by
  rcases lt_trichotomy a 0 with h | h | h
  · have hneg : 0 ≤ -a := by linarith
    rw [trunc_of_nonneg hneg, trunc_of_neg h, Int.floor_neg]
  · subst h
    simp [trunc]
  · have hneg : -a < 0 := by linarith
    rw [trunc_of_neg hneg, trunc_of_nonneg h.le, Int.ceil_neg]

/-- A number above minus one truncates to a natural number, any other one to a
negative one. -/
theorem trunc_nonneg_iff (a : K) : 0 ≤ trunc a ↔ -1 < a := by
  rcases le_or_gt 0 a with h | h
  · have hfloor : 0 ≤ ⌊a⌋ := Int.floor_nonneg.mpr h
    rw [trunc_of_nonneg h]
    constructor
    · intro _
      linarith
    · intro _
      exact hfloor
  · have hceil : -1 < ⌈a⌉ ↔ ((-1 : ℤ) : K) < a := Int.lt_ceil
    rw [trunc_of_neg h]
    push_cast at hceil
    rw [← hceil]
    omega

theorem abs_trunc_lt {a : K} {n : ℕ} (h : |a| < n) : |trunc a| < n := by
  have hnonneg : ∀ b : K, 0 ≤ b → b < n → |trunc b| < n := by
    intro b h0 hb
    have hfloor : ⌊b⌋ < n := Int.floor_lt.mpr (by simpa using hb)
    have hpos : 0 ≤ ⌊b⌋ := Int.floor_nonneg.mpr h0
    rw [trunc_of_nonneg h0, abs_of_nonneg hpos]
    exact hfloor
  rcases le_or_gt 0 a with ha | ha
  · exact hnonneg a ha (lt_of_abs_lt h)
  · have hneg := hnonneg (-a) (by linarith) (by rwa [abs_of_neg ha] at h)
    rwa [trunc_neg, abs_neg] at hneg

theorem trunc_div_natCast (a : K) (n : ℕ) : trunc (a / n) = (trunc a).tdiv n := by
  have hnonneg : ∀ b : K, 0 ≤ b → trunc (b / n) = (trunc b).tdiv n := by
    intro b hb
    have hquot : 0 ≤ b / n := div_nonneg hb (Nat.cast_nonneg n)
    have hfloor : 0 ≤ ⌊b⌋ := Int.floor_nonneg.mpr hb
    rw [trunc_of_nonneg hquot, trunc_of_nonneg hb, Int.floor_div_natCast,
      Int.tdiv_eq_ediv_of_nonneg hfloor]
  rcases le_or_gt 0 a with ha | ha
  · exact hnonneg a ha
  · have hneg := hnonneg (-a) (by linarith)
    rw [neg_div, trunc_neg, trunc_neg, Int.neg_tdiv] at hneg
    exact neg_injective hneg

/-- The whole part and the remaining parts of one unit, counted in `n`-th parts. -/
theorem trunc_mul_add_tmod (a : K) {n : ℕ} (hn : 0 < n) :
    trunc a * n + (trunc (a * n)).tmod n = trunc (a * n) := by
  have hne : (n : K) ≠ 0 := Nat.cast_ne_zero.mpr hn.ne'
  have hwhole : trunc a = (trunc (a * n)).tdiv n := by
    rw [← trunc_div_natCast, mul_div_cancel_right₀ a hne]
  rw [hwhole]
  exact Int.tdiv_mul_add_tmod _ _

end Fixed.Truncation
