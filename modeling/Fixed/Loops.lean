import Mathlib.Data.Nat.Basic
import Mathlib.Data.Sum.Basic
import Mathlib.Tactic.Common

/-!
Loops with a state. A body either leaves the loop with a result or goes on with a
new state, and the loop is run for a number of rounds. A measure that each round
decreases makes a loop halt, and an invariant under which every round goes on
keeps it from halting. The result, if there is one, does not depend on the number
of rounds allowed, and has what an invariant gives it.
-/
namespace Fixed.Loops

variable {σ ρ : Type*} (body : σ → ρ ⊕ σ)

/-- The result of the loop, if it leaves within the given number of rounds. -/
def iterate : ℕ → σ → Option ρ
  | 0, _ => none
  | n + 1, s =>
    match body s with
    | .inl r => some r
    | .inr t => iterate n t

def Halts (s : σ) : Prop := ∃ n r, iterate body n s = some r

def Leaves (s : σ) (r : ρ) : Prop := ∃ n, iterate body n s = some r

variable {body}

theorem iterate_of_leaves {s : σ} {r : ρ} (h : body s = .inl r) (n : ℕ) :
    iterate body (n + 1) s = some r := by
  simp only [iterate, h]

theorem iterate_of_goes_on {s t : σ} (h : body s = .inr t) (n : ℕ) :
    iterate body (n + 1) s = iterate body n t := by
  simp only [iterate, h]

/-- Rounds that decrease a measure leave within as many rounds as the measure allows. -/
theorem exists_iterate_of_measure (I : σ → Prop) (μ : σ → ℕ)
    (h : ∀ s t, I s → body s = .inr t → I t ∧ μ t < μ s) {n : ℕ} {s : σ} (hs : I s)
    (hn : μ s < n) : ∃ r, iterate body n s = some r := by
  induction n generalizing s with
  | zero => exact absurd hn (Nat.not_lt_zero _)
  | succ n ih =>
    cases hbody : body s with
    | inl r => exact ⟨r, iterate_of_leaves hbody n⟩
    | inr t =>
      obtain ⟨ht, hlt⟩ := h s t hs hbody
      obtain ⟨r, hr⟩ := ih ht (show μ t < n by omega)
      exact ⟨r, (iterate_of_goes_on hbody n).trans hr⟩

/-- A loop halts if each round that goes on decreases a measure. -/
theorem halts_of_measure (I : σ → Prop) (μ : σ → ℕ)
    (h : ∀ s t, I s → body s = .inr t → I t ∧ μ t < μ s) {s : σ} (hs : I s) :
    Halts body s :=
  ⟨μ s + 1, exists_iterate_of_measure I μ h hs (Nat.lt_succ_self _)⟩

/-- A loop does not halt if every round goes on. -/
theorem not_halts_of_invariant (I : σ → Prop) (h : ∀ s, I s → ∃ t, body s = .inr t ∧ I t)
    {s : σ} (hs : I s) : ¬ Halts body s := by
  intro hhalts
  obtain ⟨n, r, hn⟩ := hhalts
  induction n generalizing s with
  | zero => cases hn
  | succ n ih =>
    obtain ⟨t, hbody, ht⟩ := h s hs
    rw [iterate_of_goes_on hbody] at hn
    exact ih ht hn

theorem halts_iff_exists_leaves {s : σ} : Halts body s ↔ ∃ r, Leaves body s r := exists_comm

theorem leaves_of_goes_on {s t : σ} {r : ρ} (h : body s = .inr t) :
    Leaves body s r ↔ Leaves body t r := by
  constructor
  · intro hleaves
    obtain ⟨n, hn⟩ := hleaves
    cases n with
    | zero => cases hn
    | succ n => exact ⟨n, (iterate_of_goes_on h n).symm.trans hn⟩
  · intro hleaves
    obtain ⟨n, hn⟩ := hleaves
    exact ⟨n + 1, (iterate_of_goes_on h n).trans hn⟩

theorem leaves_of_leaves {s : σ} {r u : ρ} (h : body s = .inl r) : Leaves body s u ↔ r = u := by
  constructor
  · intro hleaves
    obtain ⟨n, hn⟩ := hleaves
    cases n with
    | zero => cases hn
    | succ n => exact Option.some.inj ((iterate_of_leaves h n).symm.trans hn)
  · intro heq
    subst heq
    exact ⟨1, iterate_of_leaves h 0⟩

/-- An invariant of the rounds gives the result its property. -/
theorem of_leaves (I : σ → Prop) {Q : ρ → Prop} (hI : ∀ s t, I s → body s = .inr t → I t)
    (hQ : ∀ s r, I s → body s = .inl r → Q r) {s : σ} {r : ρ} (hs : I s)
    (h : Leaves body s r) : Q r := by
  obtain ⟨n, hn⟩ := h
  induction n generalizing s with
  | zero => cases hn
  | succ n ih =>
    cases hbody : body s with
    | inl u =>
      rw [iterate_of_leaves hbody, Option.some.injEq] at hn
      exact hn ▸ hQ s u hs hbody
    | inr t =>
      rw [iterate_of_goes_on hbody] at hn
      exact ih (hI s t hs hbody) hn

theorem leaves_unique {s : σ} {r u : ρ} (hr : Leaves body s r) (hu : Leaves body s u) : r = u := by
  obtain ⟨n, hn⟩ := hr
  induction n generalizing s with
  | zero => cases hn
  | succ n ih =>
    cases hbody : body s with
    | inl v =>
      rw [iterate_of_leaves hbody, Option.some.injEq] at hn
      exact hn.symm.trans ((leaves_of_leaves hbody).mp hu)
    | inr t =>
      rw [iterate_of_goes_on hbody] at hn
      exact ih ((leaves_of_goes_on hbody).mp hu) hn

end Fixed.Loops
