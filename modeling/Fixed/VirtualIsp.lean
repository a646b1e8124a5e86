import Mathlib.Logic.Function.Basic
import Mathlib.Data.Int.Basic
import Mathlib.Tactic.Common

/-!
The virtual ISP drivers that `controlBurstQueBuffer` of `isp_function.cpp` keeps, one for
each command queue. Two arrays point to the drivers and to their registers. They are filled
queue by queue up to the first that fails, and the drivers are uninitialised up to the first
that fails. All of them are initialised once after the arrays are filled exactly if no queue
failed and none was initialised before.
-/
namespace Fixed.VirtualIsp

def MTRUE : ℤ := 1

inductive Entry
  | null
  /-- The memory behind the array, in which there is no driver. -/
  | raw
  | given

/-- A command queue's entries in `m_pVirtIspDrv` and `m_pVirtIspReg`, and how often its
driver is initialised. -/
structure Queue where
  drv : Entry
  reg : Entry
  inits : ℕ

structure QueueAnswer where
  getCQInstance : Bool
  init : ℤ
  getRegAddr : Bool

def fresh (qs : ℕ → Queue) : ℕ → Queue := fun cq => ⟨.raw, .raw, (qs cq).inits⟩

/-- One round of the loop that fills the arrays, after an `init` that answered `ret`. With
an answer the loop ends. -/
def Queue.fill (q : Queue) (a : QueueAnswer) (ret : ℤ) : Queue × Option ℤ :=
  if a.getCQInstance = false then ({ q with drv := .null }, some ret)
  else if a.init < 0 then ({ q with drv := .given }, some a.init)
  else if a.getRegAddr = false then (⟨.given, .null, q.inits + 1⟩, some (-1))
  else (⟨.given, .given, q.inits + 1⟩, none)

def fill (a : ℕ → QueueAnswer) : (ℕ → Queue) → ℤ → ℕ → ℕ → (ℕ → Queue) × ℤ
  | qs, _, _, 0 => (qs, MTRUE)
  | qs, ret, cq, n + 1 =>
    match (qs cq).fill (a cq) ret with
    | (q, some ret) => (Function.update qs cq q, ret)
    | (q, none) => fill a (Function.update qs cq q) (a cq).init (cq + 1) n

inductive Uninit
  | done
  | fails (ret : ℤ)
  | crash

def uninit (v : ℕ → ℤ) : (ℕ → Queue) → ℕ → ℕ → (ℕ → Queue) × Uninit
  | qs, _, 0 => (qs, .done)
  | qs, cq, n + 1 =>
    match (qs cq).drv with
    | .null => uninit v qs (cq + 1) n
    | .raw => (qs, .crash)
    | .given =>
      if v cq < 0 then (qs, .fails (v cq))
      else
        uninit v (Function.update qs cq { qs cq with inits := (qs cq).inits - 1 }) (cq + 1) n

def QueueAnswer.Ok (a : QueueAnswer) : Prop :=
  a.getCQInstance = true ∧ 0 ≤ a.init ∧ a.getRegAddr = true

def Idle (qs : ℕ → Queue) : Prop := ∀ cq, (qs cq).inits = 0

/-- The first `n` command queues have their driver, initialised once, and the others none. -/
structure Inited (qs : ℕ → Queue) (n : ℕ) : Prop where
  given : ∀ cq < n, qs cq = ⟨.given, .given, 1⟩
  rest : ∀ cq, n ≤ cq → (qs cq).inits = 0

section Fill

variable {a : ℕ → QueueAnswer}

theorem Queue.fill_ok {q : Queue} {b : QueueAnswer} (h : b.Ok) (ret : ℤ) :
    q.fill b ret = (⟨.given, .given, q.inits + 1⟩, none) := by
  obtain ⟨hdrv, hinit, hreg⟩ := h
  rw [Queue.fill, hdrv, hreg, if_neg (by simp), if_neg (Int.not_lt.mpr hinit), if_neg (by simp)]

/-- A round that fails ends the loop and gives no registers. -/
theorem Queue.fill_fails {q : Queue} {b : QueueAnswer} (h : ¬ b.Ok) (hraw : q.reg = .raw)
    (ret : ℤ) : ∃ p r, q.fill b ret = (p, some r) ∧ p.reg ≠ .given := by
  unfold Queue.fill
  split
  · refine ⟨_, _, rfl, ?_⟩
    simp [hraw]
  · next hdrv =>
    split
    · refine ⟨_, _, rfl, ?_⟩
      simp [hraw]
    · next hinit =>
      split
      · exact ⟨_, _, rfl, by simp⟩
      · next hreg =>
        exact absurd ⟨eq_true_of_ne_false hdrv, Int.not_lt.mp hinit, eq_true_of_ne_false hreg⟩ h

/-- Without a failure every driver is initialised once more. -/
theorem fill_ok (n : ℕ) (qs : ℕ → Queue) (ret : ℤ) (cq : ℕ)
    (h : ∀ i, cq ≤ i → i < cq + n → (a i).Ok) (i : ℕ) :
    (fill a qs ret cq n).1 i =
      if cq ≤ i ∧ i < cq + n then ⟨.given, .given, (qs i).inits + 1⟩ else qs i := by
  induction n generalizing qs ret cq with
  | zero =>
    rw [if_neg (by omega)]
    rfl
  | succ n ih =>
    have hround : fill a qs ret cq (n + 1) =
        fill a (Function.update qs cq ⟨.given, .given, (qs cq).inits + 1⟩) (a cq).init
          (cq + 1) n := by
      rw [fill, Queue.fill_ok (h cq (Nat.le_refl cq) (by omega))]
    rw [hround, ih _ _ _ (fun j hj hlt => h j (by omega) (by omega))]
    by_cases hi : i = cq
    · subst hi
      rw [if_neg (by omega), if_pos (by omega), Function.update_self]
    · rw [Function.update_of_ne hi]
      by_cases hin : cq + 1 ≤ i ∧ i < cq + 1 + n
      · rw [if_pos hin, if_pos (by omega)]
      · rw [if_neg hin, if_neg (by omega)]

/-- With a failure some command queue has no registers. -/
theorem fill_fails (n : ℕ) (qs : ℕ → Queue) (ret : ℤ) (cq : ℕ)
    (hraw : ∀ i, cq ≤ i → (qs i).reg = .raw)
    (h : ∃ i, cq ≤ i ∧ i < cq + n ∧ ¬ (a i).Ok) :
    ∃ i, cq ≤ i ∧ i < cq + n ∧ ((fill a qs ret cq n).1 i).reg ≠ .given := by
  induction n generalizing qs ret cq with
  | zero =>
    obtain ⟨i, hle, hlt, -⟩ := h
    omega
  | succ n ih =>
    by_cases hok : (a cq).Ok
    · obtain ⟨i, hle, hlt, hi⟩ := h
      have hne : i ≠ cq := by
        rintro rfl
        exact hi hok
      have hraw' : ∀ j, cq + 1 ≤ j →
          (Function.update qs cq ⟨.given, .given, (qs cq).inits + 1⟩ j).reg = .raw := by
        intro j hj
        rw [Function.update_of_ne (by omega)]
        exact hraw j (by omega)
      obtain ⟨j, hj, hjlt, hnone⟩ := ih _ (a cq).init _ hraw'
        ⟨i, by omega, by omega, hi⟩
      refine ⟨j, by omega, by omega, ?_⟩
      rw [fill, Queue.fill_ok hok]
      exact hnone
    · obtain ⟨p, r, hround, hp⟩ := Queue.fill_fails hok (hraw cq (Nat.le_refl cq)) ret
      refine ⟨cq, Nat.le_refl cq, by omega, ?_⟩
      rw [fill, hround]
      simpa using hp

/-- Filled arrays are those of drivers that were all idle and that all answered. -/
theorem fill_inited_iff {qs : ℕ → Queue} {ret : ℤ} {n : ℕ} :
    Inited (fill a (fresh qs) ret 0 n).1 n ↔ (∀ cq < n, (a cq).Ok) ∧ Idle qs := by
  by_cases hok : ∀ cq < n, (a cq).Ok
  · have hfill := fun i => fill_ok n (fresh qs) ret 0
      (fun j _ hj => hok j (by omega)) i
    constructor
    · intro h
      refine ⟨hok, fun cq => ?_⟩
      have hcq := hfill cq
      by_cases hlt : cq < n
      · rw [if_pos (by omega), h.given cq hlt] at hcq
        have hinits := congrArg Queue.inits hcq
        simp only [fresh] at hinits
        omega
      · rw [if_neg (by omega)] at hcq
        have hnone := h.rest cq (by omega)
        rw [hcq] at hnone
        exact hnone
    · intro h
      constructor
      · intro cq hlt
        rw [hfill cq, if_pos (by omega)]
        simp [fresh, h.2 cq]
      · intro cq hle
        rw [hfill cq, if_neg (by omega)]
        exact h.2 cq
  · constructor
    · intro h
      simp only [not_forall] at hok
      obtain ⟨cq, hlt, hcq⟩ := hok
      obtain ⟨i, -, hi, hnone⟩ := fill_fails n (fresh qs) ret 0 (fun j _ => rfl)
        ⟨cq, by omega, by omega, hcq⟩
      rw [h.given i (by omega)] at hnone
      exact absurd rfl hnone
    · intro h
      exact absurd h.1 hok

end Fill

section Uninit

variable {v : ℕ → ℤ}

/-- When all drivers answer. -/
theorem uninit_ok (n : ℕ) {qs : ℕ → Queue} {cq : ℕ}
    (hdrv : ∀ i, cq ≤ i → i < cq + n → (qs i).drv = .given)
    (h : ∀ i, cq ≤ i → i < cq + n → 0 ≤ v i) :
    (uninit v qs cq n).2 = .done ∧ ∀ i, ((uninit v qs cq n).1 i).inits =
      if cq ≤ i ∧ i < cq + n then (qs i).inits - 1 else (qs i).inits := by
  induction n generalizing qs cq with
  | zero =>
    refine ⟨rfl, fun i => ?_⟩
    rw [if_neg (by omega)]
    rfl
  | succ n ih =>
    have hround : uninit v qs cq (n + 1) =
        uninit v (Function.update qs cq { qs cq with inits := (qs cq).inits - 1 })
          (cq + 1) n := by
      rw [uninit, hdrv cq (Nat.le_refl cq) (by omega)]
      exact if_neg (Int.not_lt.mpr (h cq (Nat.le_refl cq) (by omega)))
    have hdrv' : ∀ i, cq + 1 ≤ i → i < cq + 1 + n →
        (Function.update qs cq { qs cq with inits := (qs cq).inits - 1 } i).drv = .given := by
      intro i hle hlt
      rw [Function.update_of_ne (by omega)]
      exact hdrv i (by omega) (by omega)
    obtain ⟨hdone, hinits⟩ := ih hdrv' (fun i hle hlt => h i (by omega) (by omega))
    rw [hround]
    refine ⟨hdone, fun i => ?_⟩
    rw [hinits i]
    by_cases hi : i = cq
    · subst hi
      rw [if_neg (by omega), if_pos (by omega), Function.update_self]
    · rw [Function.update_of_ne hi]
      by_cases hin : cq + 1 ≤ i ∧ i < cq + 1 + n
      · rw [if_pos hin, if_pos (by omega)]
      · rw [if_neg hin, if_neg (by omega)]

/-- The loop stops at the first driver that does not answer, which stays initialised. -/
theorem uninit_fails (n : ℕ) {qs : ℕ → Queue} {cq : ℕ}
    (hdrv : ∀ i, cq ≤ i → i < cq + n → (qs i).drv = .given)
    (h : ∃ i, cq ≤ i ∧ i < cq + n ∧ v i < 0) :
    ∃ r i, (uninit v qs cq n).2 = .fails r ∧ cq ≤ i ∧ i < cq + n ∧
      (uninit v qs cq n).1 i = qs i := by
  induction n generalizing qs cq with
  | zero =>
    obtain ⟨i, hle, hlt, -⟩ := h
    omega
  | succ n ih =>
    have hgiven := hdrv cq (Nat.le_refl cq) (by omega)
    by_cases hv : v cq < 0
    · have hstop : uninit v qs cq (n + 1) = (qs, .fails (v cq)) := by
        rw [uninit, hgiven]
        exact if_pos hv
      rw [hstop]
      exact ⟨v cq, cq, rfl, Nat.le_refl cq, by omega, rfl⟩
    · have hround : uninit v qs cq (n + 1) =
          uninit v (Function.update qs cq { qs cq with inits := (qs cq).inits - 1 })
            (cq + 1) n := by
        rw [uninit, hgiven]
        exact if_neg hv
      obtain ⟨i, hle, hlt, hi⟩ := h
      have hne : i ≠ cq := by
        rintro rfl
        exact hv hi
      have hdrv' : ∀ j, cq + 1 ≤ j → j < cq + 1 + n →
          (Function.update qs cq { qs cq with inits := (qs cq).inits - 1 } j).drv =
            .given := by
        intro j hj hjlt
        rw [Function.update_of_ne (by omega)]
        exact hdrv j (by omega) (by omega)
      obtain ⟨r, j, hr, hj, hjlt, hsame⟩ := ih hdrv' ⟨i, by omega, by omega, hi⟩
      rw [hround]
      refine ⟨r, j, hr, by omega, by omega, ?_⟩
      rw [hsame, Function.update_of_ne (by omega)]

/-- Filled arrays: all drivers are uninitialised, or the loop stops early. -/
theorem Inited.uninit {qs : ℕ → Queue} {n : ℕ} (h : Inited qs n) (v : ℕ → ℤ) :
    (∃ ps, uninit v qs 0 n = (ps, .done) ∧ (∀ cq < n, 0 ≤ v cq) ∧ Idle ps) ∨
      ∃ ps r, uninit v qs 0 n = (ps, .fails r) ∧ ¬ (∀ cq < n, 0 ≤ v cq) ∧ ¬ Idle ps := by
  have hdrv : ∀ i, 0 ≤ i → i < 0 + n → (qs i).drv = .given := by
    intro i _ hlt
    rw [h.given i (by omega)]
  by_cases hv : ∀ cq < n, 0 ≤ v cq
  · left
    obtain ⟨hdone, hinits⟩ := uninit_ok n hdrv (fun i _ hlt => hv i (by omega))
    refine ⟨(VirtualIsp.uninit v qs 0 n).1, Prod.ext rfl hdone, hv, fun cq => ?_⟩
    rw [hinits cq]
    by_cases hlt : cq < n
    · rw [if_pos (by omega), h.given cq hlt]
      rfl
    · rw [if_neg (by omega)]
      exact h.rest cq (by omega)
  · right
    simp only [not_forall] at hv
    obtain ⟨cq, hlt, hcq⟩ := hv
    obtain ⟨r, i, hr, -, hilt, hsame⟩ := uninit_fails n hdrv
      ⟨cq, by omega, by omega, Int.not_le.mp hcq⟩
    refine ⟨(VirtualIsp.uninit v qs 0 n).1, r, Prod.ext rfl hr, fun hall => ?_, fun hidle => ?_⟩
    · exact absurd (hall cq hlt) hcq
    · have hnone := hidle i
      rw [hsame, h.given i (by omega)] at hnone
      exact absurd hnone Nat.one_ne_zero

end Uninit

end Fixed.VirtualIsp
