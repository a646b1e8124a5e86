import Fixed.AndroidDevice
import Fixed.Runs

/-!
Which device a function belongs to. In every run, whatever is written to the
attribute files of however many devices, a function is listed exactly by the
device its `android_dev` points to. So no function is listed by two devices,
and the callbacks of `ffs` never follow a null device.
-/
namespace Fixed.FunctionOwnership

open AndroidDevice CString Runs

variable {ι : Type*}

/-- The functions `fs`, supported and free for the device `d`, are given to it. -/
structure Lists (functions : List Text) (d : ι) (o o' : Text → Option ι)
    (fs : List Text) [DecidableEq ι] : Prop where
  owner : ∀ f, o' f = if f ∈ fs then some d else o f
  free : ∀ f ∈ fs, o f = none ∨ o f = some d
  supported : ∀ f ∈ fs, f ∈ functions

structure Owned (p : Platform ι) (s : Driver ι) : Prop where
  owner : ∀ f d, f ∈ (s.dev d).listed ↔ s.android_dev f = some d
  supported : ∀ f d, f ∈ (s.dev d).listed → f ∈ p.functions d
  running : s.crashed = false

theorem owned_initial (p : Platform ι) : Owned p (initial : Driver ι) := by
  constructor
  · intro f d
    simp [initial, AndroidDev.initial, AndroidDev.listed]
  · intro f d hf
    simp [initial, AndroidDev.initial, AndroidDev.listed] at hf
  · rfl

variable [DecidableEq ι] {p : Platform ι} {functions : List Text} {d : ι}

section Listing

variable {o o' o'' : Text → Option ι} {fs gs : List Text}

theorem Lists.nil (functions : List Text) (d : ι) (o : Text → Option ι) :
    Lists functions d o o [] := by
  constructor <;> simp

theorem Lists.append (h : Lists functions d o o' fs) (h' : Lists functions d o' o'' gs) :
    Lists functions d o o'' (fs ++ gs) where
  owner f := by
    rw [h'.owner, h.owner]
    by_cases hg : f ∈ gs
    · simp [hg]
    · simp [hg]
  free f hf := by
    by_cases hfs : f ∈ fs
    · exact h.free f hfs
    · have hgs : f ∈ gs := (List.mem_append.mp hf).resolve_left hfs
      have hfree := h'.free f hgs
      rwa [h.owner, if_neg hfs] at hfree
  supported f hf := by
    rcases List.mem_append.mp hf with hfs | hgs
    · exact h.supported f hfs
    · exact h'.supported f hgs

theorem Lists.single {f : Text} (hf : f ∈ functions) (hfree : o f = none ∨ o f = some d) :
    Lists functions d o (Function.update o f (some d)) [f] where
  owner g := by simp [Function.update_apply]
  free g hg := by
    rw [List.mem_singleton.mp hg]
    exact hfree
  supported g hg := by
    rw [List.mem_singleton.mp hg]
    exact hf

/-- The function of the given name is added, if it can be. -/
theorem android_enable_function_cases (d : ι) (name : Text) (functions : List Text)
    (l : Listing ι) :
    android_enable_function d name functions l = (-EINVAL, l) ∨
      name ∈ functions ∧ (l.android_dev name = none ∨ l.android_dev name = some d) ∧
      android_enable_function d name functions l =
        (0, { l with
          android_dev := Function.update l.android_dev name (some d)
          enabled_functions := l.enabled_functions ++ [name] }) := by
  induction functions with
  | nil => exact Or.inl rfl
  | cons f functions ih =>
    unfold android_enable_function
    split_ifs with hname hother
    · rcases ih with hnot | ⟨hmem, hrest⟩
      · exact Or.inl hnot
      · exact Or.inr ⟨List.mem_cons_of_mem f hmem, hrest⟩
    · subst hname
      refine Or.inr ⟨List.mem_cons_self, ?_, rfl⟩
      by_cases hnone : l.android_dev name = none
      · exact Or.inl hnone
      · exact Or.inr (not_not.mp fun hd => hother ⟨hnone, hd⟩)
    · rcases ih with hnot | ⟨hmem, hrest⟩
      · exact Or.inl hnot
      · exact Or.inr ⟨List.mem_cons_of_mem f hmem, hrest⟩

theorem android_enable_function_lists (d : ι) (name : Text) (functions : List Text)
    (l : Listing ι) :
    ∃ fs, (android_enable_function d name functions l).2.enabled_functions =
        l.enabled_functions ++ fs ∧
      Lists functions d l.android_dev
        (android_enable_function d name functions l).2.android_dev fs := by
  rcases android_enable_function_cases d name functions l with hnot | ⟨hmem, hfree, hadd⟩
  · rw [hnot]
    exact ⟨[], (List.append_nil _).symm, .nil functions d _⟩
  · rw [hadd]
    exact ⟨[name], rfl, .single hmem hfree⟩

theorem listName_lists (ffs_aliases : Text) (l : Listing ι) (name : Text) :
    ∃ fs, (listName p d ffs_aliases l name).enabled_functions =
        l.enabled_functions ++ fs ∧
      Lists (p.functions d) d l.android_dev
        (listName p d ffs_aliases l name).android_dev fs := by
  unfold listName
  by_cases halias : name ∈ fields ffs_aliases ','
  · rw [if_pos halias]
    split_ifs with hdone
    · exact ⟨[], (List.append_nil _).symm, .nil _ d _⟩
    · dsimp only
      split_ifs
      · exact android_enable_function_lists d ffs (p.functions d) l
      · exact android_enable_function_lists d ffs (p.functions d) l
  · rw [if_neg halias]
    exact android_enable_function_lists d _ (p.functions d) { l with rndis_transports := _ }

theorem foldl_listName_lists (ffs_aliases : Text) (names : List Text)
    (l : Listing ι) :
    ∃ fs, (names.foldl (listName p d ffs_aliases) l).enabled_functions =
        l.enabled_functions ++ fs ∧
      Lists (p.functions d) d l.android_dev
        (names.foldl (listName p d ffs_aliases) l).android_dev fs := by
  induction names generalizing l with
  | nil => exact ⟨[], by simp, .nil _ d _⟩
  | cons name names ih =>
    obtain ⟨fs, hfs, hlists⟩ := listName_lists (p := p) (d := d) ffs_aliases l name
    obtain ⟨gs, hgs, hlists'⟩ := ih (listName p d ffs_aliases l name)
    refine ⟨fs ++ gs, ?_, hlists.append hlists'⟩
    rw [List.foldl_cons, hgs, hfs, List.append_assoc]

theorem listConfigs_lists (ffs_aliases : Text) (b : List Text)
    (configs : List Configuration) (configs_num : ℕ) (l : Listing ι) :
    Lists (p.functions d) d l.android_dev
      (listConfigs p d ffs_aliases b configs configs_num l).1.android_dev
      ((listConfigs p d ffs_aliases b configs configs_num l).2.2.flatMap
        Configuration.enabled_functions) := by
  induction b generalizing configs configs_num l with
  | nil => exact .nil _ d _
  | cons conf_str b ih =>
    obtain ⟨fs, hfs, hlists⟩ := foldl_listName_lists (p := p) (d := d) ffs_aliases
      (fields conf_str ',') { l with enabled_functions := [] }
    cases configs with
    | nil =>
      simp only [listConfigs, List.flatMap_cons]
      rw [hfs, List.nil_append]
      exact hlists.append (ih _ _ _)
    | cons conf configs =>
      simp only [listConfigs, List.flatMap_cons]
      rw [hfs, List.nil_append]
      exact hlists.append (ih _ _ _)

end Listing

section Runs

variable {s t : Driver ι}

omit [DecidableEq ι] in
theorem clearFunctions_eq_some (h : Owned p s) (f : Text) (e : ι) :
    clearFunctions s d f = some e ↔ e ≠ d ∧ f ∈ (s.dev e).listed := by
  rw [clearFunctions_apply, h.owner f e]
  by_cases hlisted : f ∈ (s.dev d).listed
  · have howner := (h.owner f d).mp hlisted
    rw [if_pos hlisted, howner]
    constructor
    · intro hnone
      exact absurd hnone (by simp)
    · intro ⟨hne, hd⟩
      exact absurd (Option.some.inj hd).symm hne
  · rw [if_neg hlisted]
    constructor
    · intro hf
      refine ⟨?_, hf⟩
      intro hed
      exact hlisted ((h.owner f d).mpr (hed ▸ hf))
    · intro hf
      exact hf.2

/-- A device lists anew, and the others keep their lists. -/
theorem owned_functions_store (h : Owned p s) (d : ι) (buff : Text) :
    Owned p (functions_store p d buff s).2 := by
  by_cases henabled : (s.dev d).enabled = true
  · rw [functions_store, if_pos henabled]
    exact h
  · have hlists : Lists (p.functions d) d (clearFunctions s d)
        (storeLists p d buff s).1.android_dev
        ((storeLists p d buff s).2.2.flatMap Configuration.enabled_functions) :=
      listConfigs_lists (l := ⟨clearFunctions s d, s.rndis_transports, false, []⟩) _ _ _ _
    rw [functions_store_idle (by simpa using henabled)]
    revert hlists
    generalize storeLists p d buff s = r
    intro hlists
    have hlisted : ∀ e, ((({ s with
        android_dev := r.1.android_dev
        rndis_transports := r.1.rndis_transports } : Driver ι).setDev d fun dev =>
          { dev with configs := r.2.2, configs_num := r.2.1 }).dev e).listed =
        if e = d then r.2.2.flatMap Configuration.enabled_functions else (s.dev e).listed := by
      intro e
      rw [setDev_dev]
      split_ifs <;> rfl
    constructor
    · intro f e
      rw [hlisted]
      show _ ↔ r.1.android_dev f = some e
      rw [hlists.owner]
      by_cases he : e = d
      · subst he
        rw [if_pos rfl]
        have hcleared := clearFunctions_eq_some (d := e) h f e
        by_cases hmem : f ∈ r.2.2.flatMap Configuration.enabled_functions
        · simp [hmem]
        · simp [hmem, hcleared]
      · rw [if_neg he]
        have hcleared := clearFunctions_eq_some (d := d) h f e
        by_cases hmem : f ∈ r.2.2.flatMap Configuration.enabled_functions
        · have hother : f ∉ (s.dev e).listed := by
            intro hf
            have hkept := hcleared.mpr ⟨he, hf⟩
            rcases hlists.free f hmem with hnone | hd
            · exact absurd (hkept.symm.trans hnone) (by simp)
            · exact he (Option.some.inj (hkept.symm.trans hd))
          simp [hmem, hother, Ne.symm he]
        · simp [hmem, hcleared, he]
    · intro f e hf
      rw [hlisted] at hf
      by_cases he : e = d
      · subst he
        rw [if_pos rfl] at hf
        exact hlists.supported f hf
      · rw [if_neg he] at hf
        exact h.supported f e hf
    · exact h.running

theorem android_enable_crashed (a : Answers) (d : ι) (s : Driver ι) :
    (android_enable p a d s).2.crashed = s.crashed := by
  rw [android_enable_eq]
  split_ifs <;> rfl

theorem android_disable_crashed (d : ι) (s : Driver ι) :
    (android_disable p d s).crashed = s.crashed := by
  rw [android_disable_eq]
  split_ifs <;> rfl

theorem enableFunction_crashed {f : Text} (h : f = ffs → s.android_dev ffs ≠ none) :
    (enableFunction p s f).crashed = s.crashed := by
  unfold enableFunction ffs_function_enable
  by_cases hffs : f = ffs
  · obtain ⟨d, hd⟩ := Option.ne_none_iff_exists'.mp (h hffs)
    simp only [if_pos hffs, hd]
    split_ifs
    · rfl
    · exact android_disable_crashed d _
  · rw [if_neg hffs]
    split_ifs <;> rfl

theorem disableFunction_crashed (a : Answers) {f : Text}
    (h : f = ffs → s.android_dev ffs ≠ none) :
    (disableFunction p a s f).crashed = s.crashed := by
  unfold disableFunction ffs_function_disable
  by_cases hffs : f = ffs
  · obtain ⟨d, hd⟩ := Option.ne_none_iff_exists'.mp (h hffs)
    simp only [if_pos hffs, hd]
    split_ifs
    · rfl
    · exact android_enable_crashed a d _
  · rw [if_neg hffs]
    split_ifs <;> rfl

omit [DecidableEq ι] in
theorem foldl_crashed {g : Driver ι → Text → Driver ι} (hlists : ∀ s f, SameLists s (g s f))
    (hcrashed : ∀ s f, (f = ffs → s.android_dev ffs ≠ none) → (g s f).crashed = s.crashed)
    {names : List Text} (h : ffs ∈ names → s.android_dev ffs ≠ none) :
    (names.foldl g s).crashed = s.crashed := by
  induction names generalizing s with
  | nil => rfl
  | cons f names ih =>
    have hkept := (hlists s f).android_dev
    rw [List.foldl_cons, ih, hcrashed s f]
    · intro hf
      exact h (hf ▸ List.mem_cons_self)
    · intro hmem
      rw [hkept]
      exact h (List.mem_cons_of_mem f hmem)

theorem enable_store_crashed (h : Owned p s) (d : ι) (enabled : ℤ) (a : Answers) :
    (enable_store p d enabled a s).crashed = s.crashed := by
  have howner : ffs ∈ (s.dev d).listed → s.android_dev ffs ≠ none := by
    intro hmem
    simp [(h.owner ffs d).mp hmem]
  unfold enable_store
  split_ifs
  · show (android_enable p a d _).2.crashed = _
    rw [android_enable_crashed]
    exact foldl_crashed sameLists_enableFunction (fun _ _ => enableFunction_crashed) howner
  · have hdisable := sameLists_android_disable (p := p) d s
    show (List.foldl (disableFunction p a) (android_disable p d s) _).crashed = _
    rw [foldl_crashed (sameLists_disableFunction a) fun _ _ => disableFunction_crashed a,
      android_disable_crashed]
    rw [hdisable.listed, hdisable.android_dev]
    exact howner
  · rfl

omit [DecidableEq ι] in
theorem Owned.sameLists (h : Owned p s) (hlists : SameLists s t) (hrun : t.crashed = s.crashed) :
    Owned p t where
  owner f d := by rw [hlists.listed, hlists.android_dev, h.owner]
  supported f d := by
    rw [hlists.listed]
    exact h.supported f d
  running := hrun.trans h.running

theorem step_crashed {e : Event ι} (h : Owned p s) (hstep : step p s e = some t) :
    t.crashed = false := by
  have hrun := h.running
  unfold step at hstep
  rw [if_neg (by simp [hrun])] at hstep
  obtain rfl := Option.some.inj hstep
  cases e with
  | functions_store d buff => exact (owned_functions_store h d buff).running
  | ffs_aliases_store buf =>
    dsimp only [handle, ffs_aliases_store]
    split_ifs <;> exact hrun
  | enable_store d enabled a => exact (enable_store_crashed h d enabled a).trans hrun
  | remote_wakeup_store d enable => exact hrun
  | rndis_transports_store buf => exact hrun
  | functionfs_ready_callback a =>
    dsimp only [handle, functionfs_ready_callback]
    split
    · exact hrun
    · dsimp only
      split_ifs
      · rw [android_enable_crashed, hrun]
      · exact hrun
  | functionfs_closed_callback =>
    dsimp only [handle, functionfs_closed_callback]
    split
    · split_ifs
      · rw [android_disable_crashed, hrun]
      · exact hrun
    · exact hrun
  | video_ready_callback =>
    dsimp only [handle, video_ready_callback]
    split <;> exact hrun
  | video_closed_callback =>
    dsimp only [handle, video_closed_callback]
    split <;> exact hrun

theorem remote_wakeup_store_listed (d e : ι) (enable : ℤ) (s : Driver ι) :
    ((remote_wakeup_store d enable s).dev e).listed = (s.dev e).listed := by
  unfold remote_wakeup_store
  rw [setDev_dev]
  split_ifs with he
  · simp [AndroidDev.listed, List.flatMap_map, he]
  · rfl

theorem owned_remote_wakeup_store (h : Owned p s) (d : ι) (enable : ℤ) :
    Owned p (remote_wakeup_store d enable s) where
  owner f e := by
    rw [remote_wakeup_store_listed, h.owner]
    rfl
  supported f e := by
    rw [remote_wakeup_store_listed]
    exact h.supported f e
  running := h.running

theorem owned_step (s : Driver ι) (e : Event ι) (t : Driver ι) (h : Owned p s)
    (hstep : step p s e = some t) : Owned p t := by
  have hrun := step_crashed h hstep
  by_cases hstore : ∃ d buff, e = .functions_store d buff
  · obtain ⟨d, buff, rfl⟩ := hstore
    obtain rfl := Option.some.inj ((step_eq_some h.running).symm.trans hstep)
    exact owned_functions_store h d buff
  · by_cases hwakeup : ∃ d enable, e = .remote_wakeup_store d enable
    · obtain ⟨d, enable, rfl⟩ := hwakeup
      obtain rfl := Option.some.inj ((step_eq_some h.running).symm.trans hstep)
      exact owned_remote_wakeup_store h d enable
    · have hlists := sameLists_step hstep
        (fun d buff he => hstore ⟨d, buff, he⟩) fun d enable he => hwakeup ⟨d, enable, he⟩
      exact h.sameLists hlists (hrun.trans h.running.symm)

/-- In every run a function is listed by the one device it belongs to, if by any,
and no null device is followed. -/
theorem functions_owned {es : List (Event ι)} (hrun : exec (step p) initial es = some s) :
    Owned p s ∧ ∀ f d e, f ∈ (s.dev d).listed → f ∈ (s.dev e).listed → d = e := by
  have howned := exec_invariant (step p) owned_step (owned_initial p) hrun
  refine ⟨howned, ?_⟩
  intro f d e hd he
  exact Option.some.inj (((howned.owner f d).mp hd).symm.trans ((howned.owner f e).mp he))

def contention : List (Event Bool) :=
  [.functions_store false ffs, .functions_store true (ffs ++ ',' :: rndis),
    .enable_store false 1 .success, .enable_store true 1 .success]

theorem functions_owned_contention : ∃ s, exec (step twoDevices) initial contention = some s ∧
    Owned twoDevices s ∧ ∀ f d e, f ∈ (s.dev d).listed → f ∈ (s.dev e).listed → d = e := by
  obtain ⟨s, hrun⟩ : ∃ s, exec (step twoDevices) initial contention = some s := ⟨_, rfl⟩
  exact ⟨s, hrun, functions_owned hrun⟩

end Runs

end Fixed.FunctionOwnership
