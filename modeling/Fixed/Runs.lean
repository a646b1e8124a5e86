import Mathlib.Logic.Basic
import Mathlib.Data.Option.Basic

/-!
Runs of a partial transition system. A step function returns `none` where an
event is not enabled, so a run is a list of events each enabled in turn. The
induction over runs is done here once: an invariant of single steps is an
invariant of runs, and a law that every step keeps exactly when it meets a
condition is a law of the run exactly when all its steps meet that condition.
-/
namespace Fixed.Runs

variable {S E : Type*} (step : S → E → Option S)

/-- The state after the events, when each of them is enabled in turn. -/
def exec : S → List E → Option S
  | s, [] => some s
  | s, e :: es => (step s e).bind fun t => exec t es

/-- Every step taken along the events satisfies `Q`. -/
def AllSteps (Q : S → E → S → Prop) : S → List E → Prop
  | _, [] => True
  | s, e :: es => ∀ t, step s e = some t → Q s e t ∧ AllSteps Q t es

theorem exec_cons_eq_some {s u : S} {e : E} {es : List E} :
    exec step s (e :: es) = some u ↔ ∃ t, step s e = some t ∧ exec step t es = some u := by
  simp only [exec, Option.bind_eq_some_iff]

theorem exec_append {s t : S} {es fs : List E} (h : exec step s es = some t) :
    exec step s (es ++ fs) = exec step t fs := by
  induction es generalizing s with
  | nil =>
    obtain rfl : s = t := Option.some.inj h
    rfl
  | cons e es ih =>
    obtain ⟨m, hm, hrest⟩ := (exec_cons_eq_some step).mp h
    rw [List.cons_append, exec, hm]
    exact ih hrest

theorem allSteps_cons {Q : S → E → S → Prop} {s t : S} {e : E} {es : List E}
    (h : step s e = some t) : AllSteps step Q s (e :: es) ↔ Q s e t ∧ AllSteps step Q t es := by
  constructor
  · intro hall
    exact hall t h
  · intro hall u hu
    obtain rfl : t = u := Option.some.inj (h.symm.trans hu)
    exact hall

/-- An invariant kept by the steps that meet `G` holds after every run whose
steps all meet `G`. -/
theorem exec_invariant_of_allSteps {I : S → Prop} {G : S → E → S → Prop}
    (hI : ∀ s e t, I s → step s e = some t → G s e t → I t)
    {s t : S} {es : List E} (hs : I s) (hG : AllSteps step G s es)
    (hrun : exec step s es = some t) : I t := by
  induction es generalizing s with
  | nil =>
    obtain rfl : s = t := Option.some.inj hrun
    exact hs
  | cons e es ih =>
    obtain ⟨m, hm, hrest⟩ := (exec_cons_eq_some step).mp hrun
    obtain ⟨hg, hgs⟩ := hG m hm
    exact ih (hI s e m hs hm hg) hgs hrest

/-- Steps that meet `G` keep what follows from `G` under an invariant they keep. -/
theorem allSteps_of_invariant {I : S → Prop} {G Q : S → E → S → Prop}
    (hI : ∀ s e t, I s → step s e = some t → G s e t → I t)
    (hQ : ∀ s e t, I s → step s e = some t → G s e t → Q s e t)
    {s : S} {es : List E} (hs : I s) (hG : AllSteps step G s es) : AllSteps step Q s es := by
  induction es generalizing s with
  | nil => trivial
  | cons e es ih =>
    intro t ht
    obtain ⟨hg, hgs⟩ := hG t ht
    exact ⟨hQ s e t hs ht hg, ih (hI s e t hs ht hg) hgs⟩

/-- If every step from the invariant `I` either meets `G` and keeps both `I` and
the law `Q`, or breaks `Q`, then a run keeps the law exactly when all its steps
meet `G`. -/
theorem allSteps_iff {I : S → Prop} {Q G : S → E → S → Prop}
    (h : ∀ s e t, I s → step s e = some t →
      G s e t ∧ I t ∧ Q s e t ∨ ¬ G s e t ∧ ¬ Q s e t)
    {s : S} {es : List E} (hs : I s) : AllSteps step Q s es ↔ AllSteps step G s es := by
  have hkeep : ∀ s e t, I s → step s e = some t → G s e t → I t ∧ Q s e t := by
    intro s e t hs ht hg
    rcases h s e t hs ht with ⟨-, hboth⟩ | ⟨hnot, -⟩
    · exact hboth
    · exact absurd hg hnot
  have hguard : ∀ s e t, I s → step s e = some t → Q s e t → G s e t := by
    intro s e t hs ht hq
    rcases h s e t hs ht with ⟨hg, -, -⟩ | ⟨-, hnot⟩
    · exact hg
    · exact absurd hq hnot
  constructor
  · apply allSteps_of_invariant step _ hguard hs
    intro s e t hs ht hq
    exact (hkeep s e t hs ht (hguard s e t hs ht hq)).1
  · apply allSteps_of_invariant step _ _ hs
    · intro s e t hs ht hg
      exact (hkeep s e t hs ht hg).1
    · intro s e t hs ht hg
      exact (hkeep s e t hs ht hg).2

/-- A law about the state after each step holds at the end of the run. -/
theorem exec_of_allSteps {I : S → Prop} {s t : S} {es : List E} (hs : I s)
    (hall : AllSteps step (fun _ _ u => I u) s es) (hrun : exec step s es = some t) : I t := by
  apply exec_invariant_of_allSteps step (I := I) _ hs hall hrun
  intro s e t _ _ ht
  exact ht

/-- What every step keeps holds after each step of a run. -/
theorem allSteps_of_step {I : S → Prop} (hI : ∀ s e t, I s → step s e = some t → I t)
    {s : S} (hs : I s) (es : List E) : AllSteps step (fun _ _ t => I t) s es := by
  induction es generalizing s with
  | nil => trivial
  | cons e es ih =>
    intro t ht
    have hkept := hI s e t hs ht
    exact ⟨hkept, ih hkept⟩

/-- What every step keeps holds at the end of a run. -/
theorem exec_invariant {I : S → Prop} (hI : ∀ s e t, I s → step s e = some t → I t)
    {s t : S} {es : List E} (hs : I s) (hrun : exec step s es = some t) : I t :=
  exec_of_allSteps step hs (allSteps_of_step step hI hs es) hrun

/-- If every step from the invariant `I` keeps it exactly when it meets `G`, then so
does a run. -/
theorem allSteps_invariant_iff {I : S → Prop} {G : S → E → S → Prop}
    (h : ∀ s e t, I s → step s e = some t → G s e t ∧ I t ∨ ¬ G s e t ∧ ¬ I t)
    {s : S} {es : List E} (hs : I s) :
    AllSteps step (fun _ _ t => I t) s es ↔ AllSteps step G s es := by
  apply allSteps_iff step _ hs
  intro s e t hs ht
  rcases h s e t hs ht with ⟨hg, hi⟩ | hnot
  · exact Or.inl ⟨hg, hi, hi⟩
  · exact Or.inr hnot

/-- A condition that the events meet from any state. -/
theorem allSteps_of_forall {Q : S → E → S → Prop} {es : List E} (h : ∀ e ∈ es, ∀ s t, Q s e t)
    (s : S) : AllSteps step Q s es := by
  induction es generalizing s with
  | nil => trivial
  | cons e es ih =>
    intro t _
    exact ⟨h e List.mem_cons_self s t, ih (fun e' he' => h e' (List.mem_cons_of_mem e he')) t⟩

theorem allSteps_append {Q : S → E → S → Prop} {s t : S} {es fs : List E}
    (hes : AllSteps step Q s es) (hrun : exec step s es = some t) (hfs : AllSteps step Q t fs) :
    AllSteps step Q s (es ++ fs) := by
  induction es generalizing s with
  | nil =>
    obtain rfl : s = t := Option.some.inj hrun
    exact hfs
  | cons e es ih =>
    intro u hu
    obtain ⟨hq, hrest⟩ := hes u hu
    refine ⟨hq, ih hrest ?_⟩
    rw [exec, hu] at hrun
    exact hrun

/-- A condition on the events of a run is one on its steps. -/
theorem allSteps_of_mem {C : E → Prop} {es : List E} (h : ∀ e ∈ es, C e) (s : S) :
    AllSteps step (fun _ e _ => C e) s es := by
  induction es generalizing s with
  | nil => trivial
  | cons e es ih =>
    intro t _
    exact ⟨h e List.mem_cons_self, ih (fun e' he' => h e' (List.mem_cons_of_mem e he')) t⟩

end Fixed.Runs
