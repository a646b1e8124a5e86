import Fixed.DisableDepth
import Mathlib.Algebra.Ring.Int.Defs
import Mathlib.Algebra.Ring.Nat
import Mathlib.Data.List.Nodup

/-!
Calls of `bind_config` and `unbind_config`. As long as no device lists a function
twice, `bound` is set exactly for the functions of the configurations that the
composite driver has, and each of them has been bound once more than it was
unbound. The flag belongs to the function and not to its place in a list: a
function that is listed more than once is bound each time and unbound once.
-/
namespace Fixed.BindBalance

open AndroidDevice DisableDepth FunctionOwnership GadgetDepth GadgetState Runs

variable {ι : Type*}

def addedFunctions (dev : AndroidDev) : List Text := dev.added.flatMap Prod.snd

structure Balanced (p : Platform ι) (s : Driver ι) : Prop where
  bound : ∀ f, s.binding.bound f = true ↔ ∃ d, f ∈ addedFunctions (s.dev d)
  binds : ∀ f, p.unbind_config f = true → s.binding.binds f = if s.binding.bound f then 1 else 0

/-- The functions `fs` are bound one after the other. -/
structure Adds (p : Platform ι) (fs : List Text) (b b' : Binding) : Prop where
  bound : ∀ f, b'.bound f = true ↔ b.bound f = true ∨ f ∈ fs
  binds : ∀ f, p.unbind_config f = true → b'.binds f = b.binds f + fs.count f

section Binding

variable {p : Platform ι} {b b' b'' : Binding} {fs gs : List Text}

theorem Adds.nil (p : Platform ι) (b : Binding) : Adds p [] b b := by
  constructor <;> simp

theorem Adds.append (h : Adds p fs b b') (h' : Adds p gs b' b'') : Adds p (fs ++ gs) b b'' where
  bound f := by rw [h'.bound, h.bound, List.mem_append, or_assoc]
  binds f hf := by
    rw [h'.binds f hf, h.binds f hf, List.count_append, Nat.cast_add, add_assoc]

theorem adds_bind_function (p : Platform ι) (b : Binding) (f : Text) :
    Adds p [f] b (bind_function b f) where
  bound g := by
    by_cases hg : g = f
    · simp [bind_function, hg]
    · simp [bind_function, hg]
  binds g hg := by
    by_cases hf : g = f
    · simp [bind_function, hf]
    · simp [bind_function, hf, Ne.symm hf]

/-- Each function that is bound is unbound once. -/
theorem unbind_bound (b : Binding) (fs : List Text) (f : Text) :
    (android_unbind_enabled_functions p b fs).bound f = true ↔ b.bound f = true ∧ f ∉ fs := by
  unfold android_unbind_enabled_functions
  induction fs generalizing b with
  | nil => simp
  | cons g fs ih =>
    rw [List.foldl_cons, ih]
    by_cases hg : f = g
    · simp [unbind_function, hg]
    · simp [unbind_function, hg]

theorem unbind_binds (b : Binding) (fs : List Text) {f : Text} (hf : p.unbind_config f = true) :
    (android_unbind_enabled_functions p b fs).binds f =
      b.binds f - if b.bound f = true ∧ f ∈ fs then 1 else 0 := by
  unfold android_unbind_enabled_functions
  induction fs generalizing b with
  | nil => simp
  | cons g fs ih =>
    rw [List.foldl_cons, ih]
    by_cases hg : f = g
    · subst hg
      by_cases hbound : b.bound f = true
      · simp [unbind_function, hbound, hf]
      · simp [unbind_function, hbound]
    · have hkept : (unbind_function p b g).binds f = b.binds f := by
        unfold unbind_function
        split_ifs
        · exact Function.update_of_ne hg _ _
        · rfl
      rw [hkept]
      simp [unbind_function, hg]

theorem unbind_append (b : Binding) (fs gs : List Text) :
    android_unbind_enabled_functions p b (fs ++ gs) =
      android_unbind_enabled_functions p (android_unbind_enabled_functions p b fs) gs :=
  List.foldl_append

/-- A binding that fails half way is undone, where no function comes twice. -/
theorem adds_of_failed {all : List Text} (hnodup : fs.Nodup) (hsub : fs ⊆ all)
    (hfree : ∀ f ∈ all, b.bound f = false) (h : Adds p fs b b') :
    Adds p [] b (android_unbind_enabled_functions p b' all) where
  bound f := by
    rw [unbind_bound, h.bound]
    by_cases hall : f ∈ all
    · simp [hall, hfree f hall]
    · have hnot : f ∉ fs := fun hmem => hall (hsub hmem)
      simp [hall, hnot]
  binds f hf := by
    rw [unbind_binds b' all hf, h.binds f hf]
    by_cases hmem : f ∈ fs
    · have hbound : b'.bound f = true := (h.bound f).mpr (Or.inr hmem)
      have hcount : fs.count f = 1 := by rw [hnodup.count, if_pos hmem]
      simp [hbound, hsub hmem, hcount]
    · have hcount := List.count_eq_zero_of_not_mem hmem
      by_cases hall : f ∈ all
      · have hbound : ¬ b'.bound f = true := by
          rw [h.bound, hfree f hall]
          simp [hmem]
        simp [hbound, hcount]
      · simp [hall, hcount]

/-- The loop from some function on, where the functions `done` were bound. -/
theorem bind_loop {all done : List Text} (hall : all = done ++ fs) (hnodup : all.Nodup)
    (hfree : ∀ f ∈ all, b.bound f = false) (h : Adds p done b b') (bind_config : ℕ → ℤ) (i : ℕ) :
    (android_bind_enabled_functions p bind_config all i fs b').1 = 0 ∧
        Adds p all b (android_bind_enabled_functions p bind_config all i fs b').2 ∨
      (∃ j, (android_bind_enabled_functions p bind_config all i fs b').1 = bind_config j ∧
        bind_config j ≠ 0) ∧
        Adds p [] b (android_bind_enabled_functions p bind_config all i fs b').2 := by
  induction fs generalizing done b' i with
  | nil =>
    rw [List.append_nil] at hall
    exact Or.inl ⟨rfl, hall ▸ h⟩
  | cons f fs ih =>
    unfold android_bind_enabled_functions
    split_ifs with hfailed
    · have hdone : done.Nodup := (List.nodup_append.mp (hall ▸ hnodup)).1
      have hsub : done ⊆ all := hall ▸ List.subset_append_left done _
      exact Or.inr ⟨⟨i, rfl, hfailed⟩, adds_of_failed hdone hsub hfree h⟩
    · exact ih (by rw [hall, List.append_assoc]; rfl) (h.append (adds_bind_function p b' f)) (i + 1)

end Binding

section Configurations

variable {p : Platform ι} {a : Answers} {b : Binding}

/-- A configuration that is not added leaves nothing bound. -/
theorem usb_add_config_adds (hrefuse : ∀ i j, a.bind_config i j ≤ 0) (i : ℕ)
    (conf : Configuration) (added : List Entry) (hnodup : conf.enabled_functions.Nodup)
    (hfree : ∀ f ∈ conf.enabled_functions, b.bound f = false) {r : ℤ × Binding × List Entry}
    (hr : p.cdev.usb_add_config (a.usb_add_config i) (android_bind_config p a i conf) conf.entry b
      added = r) :
    r.1 < 0 ∧ r.2.2 = added ∧ Adds p [] b r.2.1 ∨
      ¬ r.1 < 0 ∧ r.2.2 = added ++ [conf.entry] ∧ Adds p conf.enabled_functions b r.2.1 := by
  subst hr
  by_cases hrefused : a.usb_add_config i < 0
  · rw [p.cdev.refuses _ _ _ _ hrefused]
    exact Or.inl ⟨hrefused, rfl, .nil p b⟩
  · have hloop := bind_loop (p := p) (List.nil_append conf.enabled_functions).symm hnodup hfree
      (.nil p b) (a.bind_config i) 0
    rw [p.cdev.adds _ _ _ _ (Int.not_lt.mp hrefused), android_bind_config]
    generalize android_bind_enabled_functions p (a.bind_config i) conf.enabled_functions 0
      conf.enabled_functions b = bind at hloop
    obtain ⟨err, b'⟩ := bind
    dsimp only at hloop ⊢
    rcases hloop with ⟨rfl, hadds⟩ | ⟨⟨j, rfl, hfailed⟩, hadds⟩
    · exact Or.inr ⟨Int.lt_irrefl 0, rfl, hadds⟩
    · have herr : a.bind_config i j < 0 := by
        have hle := hrefuse i j
        omega
      rw [if_pos herr]
      exact Or.inl ⟨herr, rfl, hadds⟩

/-- What is bound in the end are the functions of the configurations that were added. -/
theorem addConfigs_adds (hrefuse : ∀ i j, a.bind_config i j ≤ 0) (i : ℕ)
    (confs : List Configuration) (err : ℤ) (added : List Entry)
    (hnodup : (confs.flatMap Configuration.enabled_functions).Nodup)
    (hfree : ∀ f ∈ confs.flatMap Configuration.enabled_functions, b.bound f = false) :
    ∃ new, (addConfigs p a i confs err b added).2.2 = added ++ new ∧
      Adds p (new.flatMap Prod.snd) b (addConfigs p a i confs err b added).2.1 := by
  induction confs generalizing i err b added with
  | nil => exact ⟨[], (List.append_nil added).symm, .nil p b⟩
  | cons conf confs ih =>
    rw [List.flatMap_cons] at hnodup hfree
    obtain ⟨hself, hrest, hdisjoint⟩ := List.nodup_append.mp hnodup
    have hcases := usb_add_config_adds (p := p) hrefuse i conf added hself
      (fun f hf => hfree f (List.mem_append_left _ hf)) rfl
    unfold addConfigs
    generalize p.cdev.usb_add_config (a.usb_add_config i) (android_bind_config p a i conf)
      conf.entry b added = r at hcases
    obtain ⟨err', b', added'⟩ := r
    dsimp only at hcases ⊢
    rcases hcases with ⟨herr, rfl, hadds⟩ | ⟨herr, rfl, hadds⟩
    · rw [if_pos herr]
      exact ⟨[], (List.append_nil _).symm, hadds⟩
    · rw [if_neg herr]
      have hfree' : ∀ f ∈ confs.flatMap Configuration.enabled_functions, b'.bound f = false := by
        intro f hf
        rw [← Bool.not_eq_true, hadds.bound, hfree f (List.mem_append_right _ hf)]
        intro hbound
        rcases hbound with hbefore | hconf
        · cases hbefore
        · exact hdisjoint f hconf f hf rfl
      obtain ⟨new, hnew, hadds'⟩ := ih (i + 1) err' (added ++ [conf.entry]) hrest hfree'
      refine ⟨conf.entry :: new, ?_, ?_⟩
      · rw [hnew, List.append_assoc, List.singleton_append]
      · rw [List.flatMap_cons]
        exact hadds.append hadds'

/-- What is removed is unbound. -/
theorem foldl_removeConfig_binding (confs : List Configuration) (b : Binding)
    {added : List Entry} (h : added <+: confs.map Configuration.entry) :
    (confs.foldl (removeConfig p) (b, added)).1 =
      android_unbind_enabled_functions p b (added.flatMap Prod.snd) := by
  induction confs generalizing b added with
  | nil =>
    obtain rfl := List.prefix_nil.mp h
    rfl
  | cons conf confs ih =>
    rw [List.foldl_cons]
    cases added with
    | nil =>
      rw [removeConfig_nil]
      exact ih b List.nil_prefix
    | cons entry added =>
      obtain ⟨rfl, hrest⟩ := List.cons_prefix_cons.mp h
      rw [removeConfig_cons, ih _ hrest, List.flatMap_cons, unbind_append]
      rfl

end Configurations

def Tidied (s : Driver ι) : Prop := ∀ d, (s.dev d).listed.Nodup

/-- The condition on a step: it is orderly, no function is listed twice, and a
`bind_config` that fails returns an error code. -/
def Tidy (s : Driver ι) (e : Event ι) (t : Driver ι) : Prop :=
  Orderly s e t ∧ match e with
  | .functions_store d _ => (t.dev d).listed.Nodup
  | .enable_store _ _ a | .functionfs_ready_callback a => ∀ i j, a.bind_config i j ≤ 0
  | _ => True

section Devices

variable {p : Platform ι} {s t : Driver ι} {d : ι}

theorem Balanced.congr (h : Balanced p s) (hbinding : t.binding = s.binding)
    (hadded : ∀ d, (t.dev d).added = (s.dev d).added) : Balanced p t where
  bound f := by
    rw [hbinding, h.bound]
    simp only [addedFunctions, hadded]
  binds f hf := by rw [hbinding, h.binds f hf]

theorem flatMap_prefix_listed {dev : AndroidDev} {added : List Entry}
    (h : added <+: dev.configs.map Configuration.entry) :
    added.flatMap Prod.snd <+: dev.listed := by
  have hlisted : dev.listed = (dev.configs.map Configuration.entry).flatMap Prod.snd := by
    rw [AndroidDev.listed, List.flatMap_map]
    rfl
  obtain ⟨rest, hrest⟩ := h
  rw [hlisted, ← hrest, List.flatMap_append]
  exact List.prefix_append _ _

structure Separate (s : Driver ι) (d : ι) : Prop where
  added : ∀ e, (s.dev e).added <+: (s.dev e).configs.map Configuration.entry
  owner : ∀ f e, f ∈ (s.dev e).listed → f ∈ (s.dev d).listed → e = d

theorem Accounted.separate (h : Accounted p s) (d : ι) : Separate s d where
  added e := (h.gadget e).added
  owner f e he hd :=
    Option.some.inj (((h.owned.owner f e).mp he).symm.trans ((h.owned.owner f d).mp hd))

theorem Balanced.functions_free (h : Balanced p s) (hseparate : Separate s d)
    (hadded : (s.dev d).added = []) {f : Text} (hf : f ∈ (s.dev d).listed) :
    s.binding.bound f = false := by
  rw [← Bool.not_eq_true, h.bound]
  intro ⟨e, he⟩
  have hlisted := (flatMap_prefix_listed (hseparate.added e)).subset he
  rw [hseparate.owner f e hlisted hf, addedFunctions, hadded] at he
  exact List.not_mem_nil he

variable [DecidableEq ι]

theorem addedFunctions_setGadget (b : Binding) (n : ℕ) (added : List Entry) (connect : Bool)
    (e : ι) : addedFunctions ((s.setGadget d b n added connect).dev e) =
      if e = d then added.flatMap Prod.snd else addedFunctions (s.dev e) := by
  unfold Driver.setGadget addedFunctions
  rw [setDev_dev]
  split_ifs <;> rfl

theorem Balanced.setDev (h : Balanced p s) {g : AndroidDev → AndroidDev}
    (hg : (g (s.dev d)).added = (s.dev d).added) : Balanced p (s.setDev d g) := by
  refine h.congr rfl ?_
  intro e
  rw [setDev_dev]
  split_ifs with he
  · rw [hg, he]
  · rfl

/-- Configurations are added to a device that had none. -/
theorem Balanced.setGadget (h : Balanced p s) (hadded : (s.dev d).added = []) {b : Binding}
    {added : List Entry} (hadds : Adds p (added.flatMap Prod.snd) s.binding b)
    (hnodup : (added.flatMap Prod.snd).Nodup)
    (hfree : ∀ f ∈ added.flatMap Prod.snd, s.binding.bound f = false) (n : ℕ) (connect : Bool) :
    Balanced p (s.setGadget d b n added connect) where
  bound f := by
    show b.bound f = true ↔ _
    simp only [hadds.bound, h.bound, addedFunctions_setGadget]
    constructor
    · intro hf
      rcases hf with ⟨e, he⟩ | hnew
      · refine ⟨e, ?_⟩
        rw [if_neg]
        · exact he
        · rintro rfl
          rw [addedFunctions, hadded] at he
          exact List.not_mem_nil he
      · exact ⟨d, by rwa [if_pos rfl]⟩
    · intro ⟨e, he⟩
      split_ifs at he
      · exact Or.inr he
      · exact Or.inl ⟨e, he⟩
  binds f hf := by
    show b.binds f = if b.bound f = true then 1 else 0
    rw [hadds.binds f hf, h.binds f hf]
    by_cases hmem : f ∈ added.flatMap Prod.snd
    · have hbound : b.bound f = true := (hadds.bound f).mpr (Or.inr hmem)
      simp [hbound, hfree f hmem, hnodup.count, hmem]
    · have hbound : b.bound f = true ↔ s.binding.bound f = true := by
        rw [hadds.bound]
        exact or_iff_left hmem
      simp [hbound, List.count_eq_zero_of_not_mem hmem]

theorem balanced_android_enable (h : Balanced p s) (hseparate : Separate s d)
    (hnodup : (s.dev d).listed.Nodup) (hdown : (s.dev d).disable_depth = 1 → (s.dev d).added = [])
    {a : Answers} (hrefuse : ∀ i j, a.bind_config i j ≤ 0) :
    Balanced p (android_enable p a d s).2 := by
  rw [android_enable_eq]
  split_ifs with hzero hone
  · exact h
  · have hadded := hdown hone
    have hfree : ∀ f ∈ (s.dev d).listed, s.binding.bound f = false :=
      fun f => h.functions_free hseparate hadded
    obtain ⟨new, hnew, hadds⟩ := addConfigs_adds (p := p) hrefuse 0 (s.dev d).configs 0
      (s.dev d).added hnodup hfree
    have hcases := addConfigs_cases p a 0 (s.dev d).configs 0 s.binding (s.dev d).added
    dsimp only
    generalize addConfigs p a 0 (s.dev d).configs 0 s.binding (s.dev d).added = r
      at hnew hadds hcases
    obtain ⟨err, b, added⟩ := r
    dsimp only at hnew hadds hcases ⊢
    rw [hadded, List.nil_append] at hnew hcases
    subst hnew
    have hprefix : added <+: (s.dev d).configs.map Configuration.entry := by
      rcases hcases with hall | ⟨-, hsome⟩
      · exact hall ▸ List.prefix_rfl
      · exact hsome
    have hlisted := flatMap_prefix_listed hprefix
    exact h.setGadget hadded hadds (hnodup.sublist hlisted.sublist)
      (fun f hf => hfree f (hlisted.subset hf)) _ _
  · exact h.setDev rfl

theorem balanced_android_disable (h : Balanced p s) (hseparate : Separate s d) :
    Balanced p (android_disable p d s) := by
  rw [android_disable_eq]
  split_ifs with hzero
  · have hbinding := foldl_removeConfig_binding (p := p) (s.dev d).configs s.binding
      (hseparate.added d)
    have hadded := foldl_removeConfig p (s.dev d).configs s.binding (hseparate.added d)
    dsimp only
    rw [hbinding, hadded]
    have hother : ∀ f e, f ∈ addedFunctions (s.dev e) → f ∈ addedFunctions (s.dev d) → e = d := by
      intro f e he hd
      exact hseparate.owner f e ((flatMap_prefix_listed (hseparate.added e)).subset he)
        ((flatMap_prefix_listed (hseparate.added d)).subset hd)
    constructor
    · intro f
      show (android_unbind_enabled_functions p s.binding (addedFunctions (s.dev d))).bound f = true
        ↔ _
      simp only [unbind_bound, h.bound, addedFunctions_setGadget]
      constructor
      · intro ⟨⟨e, he⟩, hnot⟩
        refine ⟨e, ?_⟩
        rw [if_neg]
        · exact he
        · rintro rfl
          exact hnot he
      · intro ⟨e, he⟩
        split_ifs at he with hed
        · exact absurd he List.not_mem_nil
        · exact ⟨⟨e, he⟩, fun hd => hed (hother f e he hd)⟩
    · intro f hf
      show (android_unbind_enabled_functions p s.binding (addedFunctions (s.dev d))).binds f =
        if (android_unbind_enabled_functions p s.binding (addedFunctions (s.dev d))).bound f = true
        then 1 else 0
      simp only [unbind_binds _ _ hf, unbind_bound, h.binds f hf]
      by_cases hbound : s.binding.bound f = true
      · by_cases hmem : f ∈ addedFunctions (s.dev d)
        · simp [hbound, hmem]
        · simp [hbound, hmem]
      · simp [hbound]
  · exact h.setDev rfl

theorem balanced_enable_store (h : Balanced p s) (hs : Accounted p s) (htidied : Tidied s)
    (enabled : ℤ) {a : Answers} (hrefuse : ∀ i j, a.bind_config i j ≤ 0) :
    Balanced p (enable_store p d enabled a s) := by
  have hseparate := Accounted.separate hs d
  unfold enable_store
  split_ifs with hon hoff
  · obtain ⟨hdepth, hadded, -⟩ := (hs.gadget d).down (not_up_of_idle hon.2)
    rw [foldl_enableFunction (fun hmem => (hs.owned.owner ffs d).mp hmem)
      (show 0 < (s.dev d).disable_depth by omega)]
    have hdev : ∀ e, ((raised s d (s.dev d).listed).dev e).added = (s.dev e).added ∧
        ((raised s d (s.dev d).listed).dev e).configs = (s.dev e).configs := by
      intro e
      by_cases he : e = d
      · subst he
        rw [raised_dev_self]
        exact ⟨rfl, rfl⟩
      · rw [raised_dev_of_ne _ he]
        exact ⟨rfl, rfl⟩
    have hlisted : ∀ e, ((raised s d (s.dev d).listed).dev e).listed = (s.dev e).listed := by
      intro e
      rw [AndroidDev.listed, (hdev e).2, AndroidDev.listed]
    have hraised : Balanced p (raised s d (s.dev d).listed) := h.congr rfl fun e => (hdev e).1
    refine (balanced_android_enable hraised ⟨?_, ?_⟩ ?_ ?_ hrefuse).setDev rfl
    · intro e
      rw [(hdev e).1, (hdev e).2]
      exact hseparate.added e
    · intro f e
      rw [hlisted, hlisted]
      exact hseparate.owner f e
    · rw [hlisted]
      exact htidied d
    · intro _
      rw [(hdev d).1, hadded]
  · have honce : (s.dev d).listed.count ffs ≤ 1 := List.nodup_iff_count_le_one.mp (htidied d) ffs
    dsimp only
    rw [foldl_disableFunction_disabled hs a hoff.2 honce]
    have hdisable := balanced_android_disable h hseparate
    have hlowered : Balanced p (lowered (android_disable p d s) d (s.dev d).listed) := by
      refine hdisable.congr rfl ?_
      intro e
      by_cases he : e = d
      · subst he
        rw [lowered_dev_self]
      · rw [lowered_dev_of_ne _ he]
    exact hlowered.setDev rfl
  · exact h

theorem balanced_ready (h : Balanced p s) (hs : Accounted p s) (htidied : Tidied s)
    {a : Answers} (hrefuse : ∀ i j, a.bind_config i j ≤ 0) :
    Balanced p (functionfs_ready_callback p a s).2 := by
  cases hd : s.android_dev ffs with
  | none =>
    simp only [functionfs_ready_callback, hd]
    exact h
  | some d =>
    rw [ready_eq a hd]
    have hopened : Balanced p (setOpened s true) := ⟨h.bound, h.binds⟩
    split_ifs
    · have hseparate := Accounted.separate hs d
      refine balanced_android_enable hopened ⟨hseparate.added, hseparate.owner⟩ (htidied d) ?_
        hrefuse
      intro hdepth
      have hdown : ¬ Up s d := by
        intro hup
        have hzero := (hs.gadget d).up hup
        rw [show (s.dev d).disable_depth = 1 from hdepth] at hzero
        cases hzero
      exact ((hs.gadget d).down hdown).2.1
    · exact hopened

theorem balanced_closed (h : Balanced p s) (hs : Accounted p s) :
    Balanced p (functionfs_closed_callback p s) := by
  cases hd : s.android_dev ffs with
  | none =>
    simp only [functionfs_closed_callback, hd]
    exact ⟨h.bound, h.binds⟩
  | some d =>
    rw [closed_eq hd]
    split_ifs
    · have hdisable := balanced_android_disable h (Accounted.separate hs d)
      exact ⟨hdisable.bound, hdisable.binds⟩
    · exact ⟨h.bound, h.binds⟩

end Devices

section Steps

variable [DecidableEq ι] {p : Platform ι} {s t : Driver ι}

theorem balanced_step (s : Driver ι) (e : Event ι) (t : Driver ι)
    (h : Balanced p s ∧ Accounted p s ∧ Tidied s) (hstep : step p s e = some t)
    (htidy : Tidy s e t) : Balanced p t ∧ Accounted p t ∧ Tidied t := by
  obtain ⟨hbalanced, hs, htidied⟩ := h
  have honce : Once s := fun d => List.nodup_iff_count_le_one.mp (htidied d) ffs
  refine ⟨?_, (accounted_step s e t ⟨hs, honce⟩ hstep htidy.1).1, ?_⟩
  · obtain rfl := Option.some.inj ((step_eq_some hs.owned.running).symm.trans hstep)
    cases e with
    | functions_store d buff =>
      show Balanced p (AndroidDevice.functions_store p d buff s).2
      unfold AndroidDevice.functions_store
      split_ifs
      · exact hbalanced
      · dsimp only
        apply Balanced.setDev
        · exact ⟨hbalanced.bound, hbalanced.binds⟩
        · rfl
    | ffs_aliases_store buf =>
      show Balanced p (AndroidDevice.ffs_aliases_store p buf s).2
      unfold AndroidDevice.ffs_aliases_store
      split_ifs
      · exact hbalanced
      · dsimp only
        apply hbalanced.setDev
        rfl
    | enable_store d enabled a => exact balanced_enable_store hbalanced hs htidied enabled htidy.2
    | remote_wakeup_store d enable =>
      show Balanced p (AndroidDevice.remote_wakeup_store d enable s)
      unfold AndroidDevice.remote_wakeup_store
      apply hbalanced.setDev
      rfl
    | rndis_transports_store buf => exact ⟨hbalanced.bound, hbalanced.binds⟩
    | functionfs_ready_callback a => exact balanced_ready hbalanced hs htidied htidy.2
    | functionfs_closed_callback => exact balanced_closed hbalanced hs
    | video_ready_callback =>
      show Balanced p (AndroidDevice.video_ready_callback s).2
      unfold AndroidDevice.video_ready_callback
      split
      · exact hbalanced
      · dsimp only
        apply hbalanced.setDev
        rfl
    | video_closed_callback =>
      show Balanced p (AndroidDevice.video_closed_callback s).2
      unfold AndroidDevice.video_closed_callback
      split
      · exact hbalanced
      · dsimp only
        apply hbalanced.setDev
        rfl
  · apply listed_step (P := List.Nodup) htidied hstep
    intro d buff he
    subst he
    exact htidy.2

/-- After a run of tidy steps a function is marked as bound exactly while it is in a
configuration that the composite driver has, and only then is it bound. -/
theorem binds_balanced {es : List (Event ι)} (htidy : AllSteps (step p) Tidy initial es)
    (hrun : exec (step p) initial es = some s) (f : Text) :
    (s.binding.bound f = true ↔ ∃ d, ∃ entry ∈ (s.dev d).added, f ∈ entry.2) ∧
      (p.unbind_config f = true →
        s.binding.binds f = if s.binding.bound f = true then 1 else 0) := by
  have hinitial : Balanced p (initial : Driver ι) ∧ Accounted p (initial : Driver ι) ∧
      Tidied (initial : Driver ι) := by
    refine ⟨⟨?_, fun _ _ => rfl⟩, accounted_initial p, fun _ => List.nodup_nil⟩
    intro f
    simp [initial, AndroidDev.initial, addedFunctions]
  have hbalanced := (exec_invariant_of_allSteps (step p) balanced_step hinitial htidy hrun).1
  refine ⟨?_, hbalanced.binds f⟩
  rw [hbalanced.bound]
  simp only [addedFunctions, List.mem_flatMap]

theorem tidy_session : AllSteps (step twoDevices) Tidy initial session := by
  refine (allSteps_cons _ rfl).mpr ⟨?_, (allSteps_cons _ rfl).mpr ⟨?_,
    (allSteps_cons _ rfl).mpr ⟨?_, trivial⟩⟩⟩
  · have hlisted : [rndis, ffs].Nodup := by decide
    exact ⟨List.nodup_iff_count_le_one.mp hlisted ffs, hlisted⟩
  · exact ⟨trivial, fun _ _ => Int.le_refl 0⟩
  · exact ⟨trivial, fun _ _ => Int.le_refl 0⟩

theorem binds_balanced_session : ∃ s, exec (step twoDevices) initial session = some s ∧
    s.binding.bound rndis = true ∧ s.binding.binds rndis = 1 := by
  obtain ⟨s, hrun, hadded⟩ : ∃ s, exec (step twoDevices) initial session = some s ∧
      (s.dev false).added = [(1, [rndis, ffs])] := ⟨_, rfl, rfl⟩
  obtain ⟨hbound, hbinds⟩ := binds_balanced tidy_session hrun rndis
  have hlive : s.binding.bound rndis = true := by
    rw [hbound]
    exact ⟨false, (1, [rndis, ffs]), by rw [hadded]; exact List.mem_cons_self, List.mem_cons_self⟩
  refine ⟨s, hrun, hlive, ?_⟩
  rw [hbinds rfl, if_pos hlive]

end Steps

end Fixed.BindBalance
