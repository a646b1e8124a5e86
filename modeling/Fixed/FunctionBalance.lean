import Fixed.AndroidFunction
import Fixed.Runs

/-!
What the loopback function owns over whole runs of configuring, unconfiguring
and the final clean-up. At any time at most one configuration record, one
instance and one function are to be live, only live objects are to be
released, and nothing is to be live after the clean-up. Where `lb_free_func` crashes on
a function that is not linked, one object of each kind is live. Binding overwrites
`f->config`, and the clean-up releases only what that points to, and not the
function. A run is balanced exactly when no record is allocated over an
earlier one and the clean-up finds nothing or an instance without a function.
-/
namespace Fixed.FunctionBalance

open ObjectLedger AndroidFunction Runs

def Triple (s : Driver) : Prop :=
  s.configs.live.card = 1 ∧ s.instances.live.card = 1 ∧ s.functions.live.card = 1

structure Balanced (s : Driver) : Prop where
  configs : s.configs.Single
  instances : s.instances.Single
  functions : s.functions.Single
  cleaned : s.cleaned = true →
    s.configs.live = ∅ ∧ s.instances.live = ∅ ∧ s.functions.live = ∅
  crashed : s.crashed = true → Triple s

/-- `f->config` is null, or a record of an instance without a function. -/
def Releasable (s : Driver) : Prop :=
  ∀ n, s.f_config = .obj n → (s.config n).fi.IsObj ∧ ¬ (s.config n).func.IsObj

def KeepsOwner (s : Driver) (e : Event) (_ : Driver) : Prop :=
  match e with
  | .bind o => o.kzalloc = true → s.f_config = .null
  | .remove => True
  | .cleanup => Releasable s

def allocated (s : Driver) : Driver :=
  { s with
    f_config := .obj s.configs.made
    config := Function.update s.config s.configs.made
      ⟨.obj s.functions.made, .obj s.instances.made⟩
    refcnt := Function.update s.refcnt s.instances.made 1
    fi := Function.update s.fi s.functions.made .null
    configs := s.configs.alloc
    instances := s.instances.alloc
    functions := s.functions.alloc }

section Bind

variable {s : Driver} {o : BindOutcome} (hc : s.crashed = false)

include hc

theorem bind_of_no_memory (hk : o.kzalloc = false) :
    android_bind_enabled_function s o = android_unbind_enabled_function s := by
  simp [android_bind_enabled_function, android_unbind_enabled_function,
    loopback_function_bind_config, hk, hc, ENOMEM]

theorem bind_of_no_instance (hk : o.kzalloc = true) (hi : o.alloc_instance = false) :
    android_bind_enabled_function s o = { s with
      bound := false
      f_config := .obj s.configs.made
      config := Function.update s.config s.configs.made ⟨.null, .err (-ENOMEM)⟩
      configs := s.configs.alloc } := by
  simp [android_bind_enabled_function, loopback_function_bind_config, loopback_alloc_instance,
    Driver.setConfig, hk, hi, hc, ENOMEM]

theorem bind_of_no_function (hk : o.kzalloc = true) (hi : o.alloc_instance = true)
    (ha : o.alloc = false) :
    android_bind_enabled_function s o = { s with
      bound := false
      f_config := .obj s.configs.made
      config := Function.update s.config s.configs.made ⟨.err (-ENOMEM), .obj s.instances.made⟩
      refcnt := Function.update s.refcnt s.instances.made 0
      configs := s.configs.alloc
      instances := s.instances.alloc } := by
  simp [android_bind_enabled_function, loopback_function_bind_config, loopback_alloc_instance,
    loopback_alloc, Driver.setConfig, hk, hi, ha, hc, ENOMEM]

theorem bind_of_added (hk : o.kzalloc = true) (hi : o.alloc_instance = true)
    (ha : o.alloc = true) (hadd : o.usb_add_function = 0) :
    android_bind_enabled_function s o =
      { (usb_add_function (allocated s) s.instances.made s.functions.made o).2 with
        bound := true } := by
  simp [android_bind_enabled_function, loopback_function_bind_config, loopback_alloc_instance,
    loopback_alloc, usb_add_function, Driver.setConfig, allocated, hk, hi, ha, hadd, hc]

theorem bind_of_refused (hk : o.kzalloc = true) (hi : o.alloc_instance = true)
    (ha : o.alloc = true) (hadd : o.usb_add_function ≠ 0) (hl : o.linked = true) :
    android_bind_enabled_function s o = { allocated s with
      bound := false
      config := Function.update s.config s.configs.made ⟨.null, .obj s.instances.made⟩
      refcnt := Function.update s.refcnt s.instances.made 0
      fi := Function.update s.fi s.functions.made (.obj s.instances.made)
      functions := s.functions.alloc.release (.obj s.functions.made) } := by
  simp [android_bind_enabled_function, loopback_function_bind_config, loopback_alloc_instance,
    loopback_alloc, usb_add_function, usb_put_function, lb_free_func, Driver.setConfig, allocated,
    hk, hi, ha, hadd, hl, hc]

/-- A function that is not linked cannot be released. -/
theorem bind_of_crash (hk : o.kzalloc = true) (hi : o.alloc_instance = true)
    (ha : o.alloc = true) (hadd : o.usb_add_function ≠ 0) (hl : o.linked = false) :
    android_bind_enabled_function s o = { allocated s with crashed := true } := by
  simp [android_bind_enabled_function, loopback_function_bind_config, loopback_alloc_instance,
    loopback_alloc, usb_add_function, usb_put_function, lb_free_func, Driver.setConfig, allocated,
    hk, hi, ha, hadd, hl, hc]

end Bind

structure Holds (s : Driver) (configs instances functions : Finset ℕ) : Prop where
  configs : s.configs.live = configs
  instances : s.instances.live = instances
  functions : s.functions.live = functions
  configs_faults : s.configs.faults = 0
  instances_faults : s.instances.faults = 0
  functions_faults : s.functions.faults = 0

inductive Left (s : Driver) : Prop
  | nothing (hconfig : s.f_config = .null) (h : Holds s ∅ ∅ ∅)
  | config (n : ℕ) (hconfig : s.f_config = .obj n) (e : ℤ) (hfi : (s.config n).fi = .err e)
      (h : Holds s {n} ∅ ∅)
  | inst (n m : ℕ) (hconfig : s.f_config = .obj n) (hfi : (s.config n).fi = .obj m)
      (hfunc : ¬ (s.config n).func.IsObj) (h : Holds s {n} {m} ∅)
  | func (n m k : ℕ) (hconfig : s.f_config = .obj n) (hfi : (s.config n).fi = .obj m)
      (hfunc : (s.config n).func = .obj k) (h : Holds s {n} {m} {k})

def Inv (s : Driver) : Prop := s.crashed = true ∨ s.cleaned = true ∨ Left s

section Holds

variable {s : Driver}

theorem balanced_of_holds {c i f : Finset ℕ} (h : Holds s c i f) (hc : c.card ≤ 1)
    (hi : i.card ≤ 1) (hf : f.card ≤ 1)
    (hcleaned : s.cleaned = true → c = ∅ ∧ i = ∅ ∧ f = ∅) (hcrash : s.crashed = true → Triple s) :
    Balanced s where
  configs := ⟨h.configs ▸ hc, h.configs_faults⟩
  instances := ⟨h.instances ▸ hi, h.instances_faults⟩
  functions := ⟨h.functions ▸ hf, h.functions_faults⟩
  cleaned := by
    intro hs
    obtain ⟨rfl, rfl, rfl⟩ := hcleaned hs
    exact ⟨h.configs, h.instances, h.functions⟩
  crashed := hcrash

theorem balanced_of_left (h : Left s) (hrun : s.cleaned = false)
    (hcrash : s.crashed = true → Triple s) : Balanced s := by
  have hcleaned {c i f : Finset ℕ} : s.cleaned = true → c = ∅ ∧ i = ∅ ∧ f = ∅ := by
    intro hs
    rw [hrun] at hs
    cases hs
  cases h with
  | nothing _ h => exact balanced_of_holds h (by simp) (by simp) (by simp) hcleaned hcrash
  | config _ _ _ _ h => exact balanced_of_holds h (by simp) (by simp) (by simp) hcleaned hcrash
  | inst _ _ _ _ _ h => exact balanced_of_holds h (by simp) (by simp) (by simp) hcleaned hcrash
  | func _ _ _ _ _ _ h => exact balanced_of_holds h (by simp) (by simp) (by simp) hcleaned hcrash

theorem left_unbind (h : Left s) : Left (android_unbind_enabled_function s) := by
  cases h with
  | nothing hconfig h => exact .nothing hconfig ⟨h.1, h.2, h.3, h.4, h.5, h.6⟩
  | config n hconfig e hfi h =>
    exact .config n hconfig e hfi ⟨h.1, h.2, h.3, h.4, h.5, h.6⟩
  | inst n m hconfig hfi hfunc h =>
    exact .inst n m hconfig hfi hfunc ⟨h.1, h.2, h.3, h.4, h.5, h.6⟩
  | func n m k hconfig hfi hfunc h =>
    exact .func n m k hconfig hfi hfunc ⟨h.1, h.2, h.3, h.4, h.5, h.6⟩

/-- A bind from nothing leaves at most one object of each kind. -/
theorem left_bind (hc : s.crashed = false) (hrun : s.cleaned = false) (h : Holds s ∅ ∅ ∅)
    {o : BindOutcome} (hk : o.kzalloc = true) :
    Left (android_bind_enabled_function s o) ∧
      (android_bind_enabled_function s o).cleaned = false := by
  have hconfigs : s.configs.alloc.live = {s.configs.made} := by simp [h.configs]
  have hinstances : s.instances.alloc.live = {s.instances.made} := by simp [h.instances]
  have hfunctions : s.functions.alloc.live = {s.functions.made} := by simp [h.functions]
  cases hi : o.alloc_instance with
  | false =>
    rw [bind_of_no_instance hc hk hi]
    exact ⟨.config _ rfl (-ENOMEM) (by simp) ⟨hconfigs, h.2, h.3, h.4, h.5, h.6⟩, hrun⟩
  | true =>
    cases ha : o.alloc with
    | false =>
      rw [bind_of_no_function hc hk hi ha]
      refine ⟨.inst _ s.instances.made rfl (by simp) ?_
        ⟨hconfigs, hinstances, h.3, h.4, h.5, h.6⟩, hrun⟩
      simp [Ptr.IsObj]
    | true =>
      by_cases hadd : o.usb_add_function = 0
      · rw [bind_of_added hc hk hi ha hadd]
        refine ⟨.func _ s.instances.made s.functions.made rfl ?_ ?_
          ⟨hconfigs, hinstances, hfunctions, h.4, h.5, h.6⟩, hrun⟩
        · simp [usb_add_function, allocated]
        · simp [usb_add_function, allocated]
      · cases hl : o.linked with
        | false =>
          rw [bind_of_crash hc hk hi ha hadd hl]
          refine ⟨.func _ s.instances.made s.functions.made rfl ?_ ?_
            ⟨hconfigs, hinstances, hfunctions, h.4, h.5, h.6⟩, hrun⟩
          · simp [allocated]
          · simp [allocated]
        | true =>
          rw [bind_of_refused hc hk hi ha hadd hl]
          refine ⟨.inst _ s.instances.made rfl (by simp) ?_
            ⟨hconfigs, hinstances, ?_, h.4, h.5, ?_⟩, hrun⟩
          · simp [Ptr.IsObj]
          · exact (Ledger.release_alloc_live _).trans h.functions
          · exact (Ledger.release_alloc_faults _).trans h.functions_faults

/-- A bind crashes only on the function it has just allocated beside its record and its
instance. -/
theorem triple_of_bind_crash (hc : s.crashed = false) (h : Holds s ∅ ∅ ∅) {o : BindOutcome}
    (hk : o.kzalloc = true) (hcrash : (android_bind_enabled_function s o).crashed = true) :
    Triple (android_bind_enabled_function s o) := by
  cases hi : o.alloc_instance with
  | false =>
    rw [bind_of_no_instance hc hk hi, hc] at hcrash
    cases hcrash
  | true =>
    cases ha : o.alloc with
    | false =>
      rw [bind_of_no_function hc hk hi ha, hc] at hcrash
      cases hcrash
    | true =>
      by_cases hadd : o.usb_add_function = 0
      · rw [bind_of_added hc hk hi ha hadd] at hcrash
        exact absurd (hc.symm.trans hcrash) (by simp)
      · cases hl : o.linked with
        | false =>
          rw [bind_of_crash hc hk hi ha hadd hl]
          refine ⟨?_, ?_, ?_⟩
          · simp [allocated, h.configs]
          · simp [allocated, h.instances]
          · simp [allocated, h.functions]
        | true =>
          rw [bind_of_refused hc hk hi ha hadd hl] at hcrash
          exact absurd (hc.symm.trans hcrash) (by simp)

/-- Every bind that gets its record allocates it beside the live ones. -/
theorem bind_configs (hc : s.crashed = false) {o : BindOutcome} (hk : o.kzalloc = true) :
    (android_bind_enabled_function s o).configs = s.configs.alloc := by
  cases hi : o.alloc_instance with
  | false => rw [bind_of_no_instance hc hk hi]
  | true =>
    cases ha : o.alloc with
    | false => rw [bind_of_no_function hc hk hi ha]
    | true =>
      by_cases hadd : o.usb_add_function = 0
      · rw [bind_of_added hc hk hi ha hadd]
        rfl
      · cases hl : o.linked with
        | false => rw [bind_of_crash hc hk hi ha hadd hl, allocated]
        | true => rw [bind_of_refused hc hk hi ha hadd hl, allocated]

theorem bind_over_unbalanced (hc : s.crashed = false) {n : ℕ} (hn : n ∈ s.configs.live)
    {o : BindOutcome} (hk : o.kzalloc = true) :
    ¬ Balanced (android_bind_enabled_function s o) := by
  intro hb
  have hsingle := hb.configs
  rw [bind_configs hc hk] at hsingle
  exact Ledger.not_single_alloc hn hsingle

theorem cleanup_of_null (h : s.f_config = .null) : loopback_function_cleanup s = s := by
  obtain ⟨f_config, bound, config, refcnt, fi, configs, instances, functions, crashed, cleaned⟩ := s
  obtain rfl : f_config = .null := h
  rfl

theorem cleanup_of_obj {n : ℕ} (h : s.f_config = .obj n) :
    loopback_function_cleanup s = { s with
      instances := s.instances.release (s.config n).fi
      configs := s.configs.release (.obj n) } := by
  simp [loopback_function_cleanup, usb_put_function_instance, h]

theorem exists_live_of_left (h : Left s) (hne : s.f_config ≠ .null) :
    ∃ n, n ∈ s.configs.live := by
  cases h with
  | nothing hnull _ => exact absurd hnull hne
  | config n _ _ _ h | inst n _ _ _ _ h | func n _ _ _ _ _ h =>
    exact ⟨n, h.configs ▸ Finset.mem_singleton_self n⟩

theorem holds_of_left (h : Left s) (hnull : s.f_config = .null) : Holds s ∅ ∅ ∅ := by
  cases h with
  | nothing _ hh => exact hh
  | config _ hn _ _ _ | inst _ _ hn _ _ _ | func _ _ _ hn _ _ _ =>
    rw [hnull] at hn
    cases hn

theorem balanced_of_none (hc : s.crashed = false) (h : Holds s ∅ ∅ ∅) : Balanced s := by
  apply balanced_of_holds h (by simp) (by simp) (by simp)
  · intro _
    exact ⟨rfl, rfl, rfl⟩
  · intro hcrash
    exact absurd (hc.symm.trans hcrash) (by simp)

/-- What the binds have left is released whole exactly when it is releasable. -/
theorem balanced_cleanup_iff (hc : s.crashed = false) (h : Left s) :
    Balanced { loopback_function_cleanup s with cleaned := true } ↔ Releasable s := by
  cases h with
  | nothing hconfig h =>
    rw [cleanup_of_null hconfig]
    constructor
    · intro _ n hn
      rw [hconfig] at hn
      cases hn
    · intro _
      exact balanced_of_none hc ⟨h.1, h.2, h.3, h.4, h.5, h.6⟩
  | config n hconfig e hfi h =>
    rw [cleanup_of_obj hconfig, hfi]
    constructor
    · intro hb
      have hfaults := hb.instances.released
      rw [Ledger.release_err_faults] at hfaults
      omega
    · intro hr
      have hobj := (hr n hconfig).1
      rw [hfi] at hobj
      exact absurd hobj id
  | inst n m hconfig hfi hfunc h =>
    rw [cleanup_of_obj hconfig, hfi]
    have hn : n ∈ s.configs.live := h.configs ▸ Finset.mem_singleton_self n
    have hm : m ∈ s.instances.live := h.instances ▸ Finset.mem_singleton_self m
    constructor
    · intro _ n' hn'
      obtain rfl : n = n' := Ptr.obj.inj (hconfig.symm.trans hn')
      rw [hfi]
      exact ⟨trivial, hfunc⟩
    · intro _
      refine balanced_of_none hc ⟨?_, ?_, h.functions, ?_, ?_, h.functions_faults⟩
      · exact (Ledger.release_live hn).trans (by rw [h.configs, Finset.erase_singleton])
      · exact (Ledger.release_live hm).trans (by rw [h.instances, Finset.erase_singleton])
      · exact (Ledger.release_faults hn).trans h.configs_faults
      · exact (Ledger.release_faults hm).trans h.instances_faults
  | func n m k hconfig hfi hfunc h =>
    rw [cleanup_of_obj hconfig]
    constructor
    · intro hb
      have hnone : s.functions.live = ∅ := (hb.cleaned rfl).2.2
      rw [h.functions] at hnone
      exact absurd hnone (Finset.singleton_ne_empty k)
    · intro hr
      have hnot := (hr n hconfig).2
      rw [hfunc] at hnot
      exact absurd trivial hnot

/-- A bind that gets a record breaks the balance exactly when it finds one before it. -/
theorem bind_keeps_or_breaks (hleft : Left s) (hc : s.crashed = false) (hcl : s.cleaned = false)
    (o : BindOutcome) :
    let t := android_bind_enabled_function s o
    KeepsOwner s (.bind o) t ∧ Inv t ∧ Balanced t ∨ ¬ KeepsOwner s (.bind o) t ∧ ¬ Balanced t := by
  intro t
  cases hk : o.kzalloc with
  | false =>
    have hkeeps : KeepsOwner s (.bind o) t := by
      intro hk'
      rw [hk] at hk'
      cases hk'
    refine Or.inl ⟨hkeeps, ?_⟩
    simp only [t, bind_of_no_memory hc hk]
    exact ⟨Or.inr (Or.inr (left_unbind hleft)), balanced_of_left (left_unbind hleft) hcl
      fun hcrash => absurd (hc.symm.trans hcrash) (by simp)⟩
  | true =>
    by_cases hconfig : s.f_config = .null
    · have hnone := holds_of_left hleft hconfig
      obtain ⟨hleft', hcl'⟩ := left_bind hc hcl hnone hk
      exact Or.inl ⟨fun _ => hconfig, Or.inr (Or.inr hleft'),
        balanced_of_left hleft' hcl' (triple_of_bind_crash hc hnone hk)⟩
    · obtain ⟨n, hn⟩ := exists_live_of_left hleft hconfig
      refine Or.inr ⟨?_, bind_over_unbalanced hc hn hk⟩
      intro hkeeps
      exact hconfig (hkeeps hk)

end Holds

/-- A step that keeps the owner keeps the invariant and the balance; any other
one breaks the balance. -/
theorem step_cases (s : Driver) (e : Event) (t : Driver) (hinv : Inv s)
    (h : step s e = some t) :
    KeepsOwner s e t ∧ Inv t ∧ Balanced t ∨ ¬ KeepsOwner s e t ∧ ¬ Balanced t := by
  have hrun : s.crashed = false ∧ s.cleaned = false := by
    by_contra hne
    have hover : s.crashed = true ∨ s.cleaned = true := by
      rw [not_and_or, Bool.not_eq_false, Bool.not_eq_false] at hne
      exact hne
    simp [step, hover] at h
  obtain ⟨hc, hcl⟩ := hrun
  have hleft : Left s := by
    rcases hinv with hcr | hcl' | hleft
    · rw [hcr] at hc
      cases hc
    · rw [hcl'] at hcl
      cases hcl
    · exact hleft
  cases e with
  | bind o =>
    have ht : t = android_bind_enabled_function s o := by simpa [step, hc, hcl] using h.symm
    subst ht
    exact bind_keeps_or_breaks hleft hc hcl o
  | remove =>
    have ht : t = android_unbind_enabled_function s := by simpa [step, hc, hcl] using h.symm
    subst ht
    have hleft' := left_unbind hleft
    exact Or.inl ⟨trivial, Or.inr (Or.inr hleft'), balanced_of_left hleft' hcl
      fun hcrash => absurd (hc.symm.trans hcrash) (by simp)⟩
  | cleanup =>
    have ht : t = { loopback_function_cleanup s with cleaned := true } := by
      simpa [step, hc, hcl] using h.symm
    subst ht
    by_cases hr : Releasable s
    · exact Or.inl ⟨hr, Or.inr (Or.inl rfl), (balanced_cleanup_iff hc hleft).mpr hr⟩
    · exact Or.inr ⟨hr, fun hb => hr ((balanced_cleanup_iff hc hleft).mp hb)⟩

theorem inv_initial : Inv initial :=
  Or.inr (Or.inr (.nothing rfl ⟨rfl, rfl, rfl, rfl, rfl, rfl⟩))

/-- A run from the fresh driver is balanced after each of its steps exactly
when every bind that gets a record finds none before it and the clean-up finds
nothing to release or an instance without a function. -/
theorem function_balanced_iff (es : List Event) :
    AllSteps step (fun _ _ t => Balanced t) initial es ↔ AllSteps step KeepsOwner initial es :=
  allSteps_iff step step_cases inv_initial

section Sample

def smooth : BindOutcome := ⟨true, true, true, 0, false⟩

/-- One bind and the clean-up leave the function behind, a second bind loses
the record of the first, and after a bind without an instance the clean-up
releases an error code. -/
theorem bind_and_cleanup_leaks :
    ((exec step initial [.bind smooth, .remove, .cleanup]).map fun s =>
      (s.configs.live, s.instances.live, s.functions.live)) = some (∅, ∅, {0}) ∧
    ((exec step initial [.bind smooth, .remove, .bind smooth]).map fun s =>
      (s.configs.live, s.instances.live, s.functions.live)) =
        some ({0, 1}, {0, 1}, {0, 1}) ∧
    ((exec step initial [.bind { smooth with alloc_instance := false }, .cleanup]).map fun s =>
      s.instances.faults) = some 1 ∧
    ¬ AllSteps step (fun _ _ t => Balanced t) initial [.bind smooth, .remove, .cleanup] := by
  refine ⟨by decide +kernel, by decide +kernel, by decide +kernel, ?_⟩
  intro h
  obtain ⟨-, hbound⟩ := h _ rfl
  obtain ⟨-, hremoved⟩ := hbound _ rfl
  obtain ⟨hcleaned, -⟩ := hremoved _ rfl
  have hnone := (hcleaned.cleaned rfl).2.2
  revert hnone
  decide +kernel

end Sample

end Fixed.FunctionBalance
