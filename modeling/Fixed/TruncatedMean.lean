import Mathlib.Algebra.BigOperators.Ring.Finset
import Mathlib.Algebra.Order.BigOperators.Group.Finset
import Mathlib.Algebra.Order.Group.Abs
import Mathlib.Tactic.Ring

/-!
The mean of integers, rounded towards zero, and numbers moved so that their mean
should come to lie at a target. What is left over is the remainder of the division:
the new mean is the target if the target is zero or the remainder does not pull a
positive target down, and one less otherwise.
-/
namespace Fixed.TruncatedMean

variable {ι : Type*} (s : Finset ι) (f : ι → ℤ) (t : ℤ)

def mean : ℤ := (∑ i ∈ s, f i).tdiv s.card

def rest : ℤ := (∑ i ∈ s, f i).tmod s.card

def recentre (i : ι) : ℤ := f i - mean s f + t

theorem sum_eq_mean_add_rest : ∑ i ∈ s, f i = s.card * mean s f + rest s f :=
  (Int.mul_tdiv_add_tmod _ _).symm

theorem sum_recentre : ∑ i ∈ s, recentre s f t i = s.card * t + rest s f := by
  simp only [recentre, Finset.sum_add_distrib, Finset.sum_sub_distrib, Finset.sum_const,
    nsmul_eq_mul, sum_eq_mean_add_rest s f]
  ring

variable {s f t}

theorem card_pos_of_nonempty (hs : s.Nonempty) : (0 : ℤ) < s.card :=
  Int.natCast_pos.mpr (Finset.card_pos.mpr hs)

theorem rest_bounds (hs : s.Nonempty) : -(s.card : ℤ) < rest s f ∧ rest s f < s.card :=
  ⟨Int.lt_tmod_of_pos _ (card_pos_of_nonempty hs), Int.tmod_lt_of_pos _ (card_pos_of_nonempty hs)⟩

/-- The remainder is negative exactly if the sum is and does not divide evenly. -/
theorem rest_nonneg_iff :
    0 ≤ rest s f ↔ 0 ≤ ∑ i ∈ s, f i ∨ (s.card : ℤ) ∣ ∑ i ∈ s, f i := by
  rw [rest, ← Int.sign_nonneg_iff, Int.sign_tmod]
  split
  · next hdvd =>
    constructor
    · intro _
      exact Or.inr hdvd
    · intro _
      exact Int.le_refl 0
  · next hdvd => rw [Int.sign_nonneg_iff, or_iff_left hdvd]

/-- A target that is not negative is met if the remainder is not negative. -/
theorem mean_recentre_of_nonneg (hs : s.Nonempty) (ht : 0 ≤ t) (hrest : 0 ≤ rest s f) :
    mean s (recentre s f t) = t := by
  have hcard := card_pos_of_nonempty hs
  obtain ⟨-, hlt⟩ := rest_bounds (f := f) hs
  have hprod : 0 ≤ s.card * t := Int.mul_nonneg hcard.le ht
  have hunique := Int.tdiv_tmod_unique (a := s.card * t + rest s f) (b := s.card)
    (r := rest s f) (q := t) (Int.add_nonneg hprod hrest) hcard.ne'
  rw [mean, sum_recentre]
  exact (hunique.mpr ⟨Int.add_comm _ _, hrest, by omega⟩).1

/-- A positive target is missed by one if the remainder is negative. -/
theorem mean_recentre_of_neg (hs : s.Nonempty) (ht : 0 < t) (hrest : rest s f < 0) :
    mean s (recentre s f t) = t - 1 := by
  have hcard := card_pos_of_nonempty hs
  obtain ⟨hgt, -⟩ := rest_bounds (f := f) hs
  have hprod : (s.card : ℤ) * 1 ≤ s.card * t := Int.mul_le_mul_of_nonneg_left ht hcard.le
  have hunique := Int.tdiv_tmod_unique (a := s.card * t + rest s f) (b := s.card)
    (r := s.card + rest s f) (q := t - 1) (show 0 ≤ s.card * t + rest s f by omega) hcard.ne'
  rw [mean, sum_recentre]
  exact (hunique.mpr ⟨by ring, by omega, by omega⟩).1

/-- Zero is always met. -/
theorem mean_recentre_zero (hs : s.Nonempty) : mean s (recentre s f 0) = 0 := by
  rcases Int.lt_or_le (rest s f) 0 with hneg | hnonneg
  · have hcard := card_pos_of_nonempty hs
    obtain ⟨hgt, -⟩ := rest_bounds (f := f) hs
    have hunique := Int.tdiv_tmod_unique' (a := rest s f) (b := s.card)
      (r := rest s f) (q := 0) hneg.le hcard.ne'
    rw [mean, sum_recentre, Int.mul_zero, Int.zero_add]
    exact (hunique.mpr ⟨by ring, by omega, hneg.le⟩).1
  · exact mean_recentre_of_nonneg hs (Int.le_refl 0) hnonneg

/-- The moved numbers lie as far from the target as the numbers from their mean. -/
theorem sub_recentre (i : ι) : t - recentre s f t i = mean s f - f i := by
  rw [recentre]
  omega

theorem abs_sum_le {b : ℤ} (h : ∀ i ∈ s, |f i| ≤ b) : |∑ i ∈ s, f i| ≤ s.card * b := by
  have hsum := Finset.sum_le_card_nsmul s (fun i => |f i|) b h
  rw [nsmul_eq_mul] at hsum
  exact (Finset.abs_sum_le_sum_abs f s).trans hsum

theorem abs_mean_le {b : ℤ} (h : ∀ i ∈ s, |f i| ≤ b) : |mean s f| ≤ s.card * b := by
  have hquot : |mean s f| ≤ |∑ i ∈ s, f i| := by
    rw [mean, Int.abs_eq_natAbs, Int.abs_eq_natAbs]
    exact Int.ofNat_le.mpr (Int.natAbs_tdiv_le_natAbs _ _)
  exact hquot.trans (abs_sum_le h)

end Fixed.TruncatedMean
