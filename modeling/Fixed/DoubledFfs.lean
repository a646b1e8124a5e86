import Fixed.DisableDepth

/-!
What happens where a device lists `ffs` more than once. `functions_store` only
keeps the aliases of `ffs` apart, not its own name, and each entry of the list is
enabled and disabled. If `ffs` is opened before the device is enabled and closed
before it is disabled again, the disables are undone once too often: the gadget is
connected while the device is disabled, and the configurations it was given can be
freed under it.
-/
namespace Fixed.DoubledFfs

open AndroidDevice DisableDepth FunctionOwnership GadgetDepth GadgetState Runs

variable {ι : Type*} [DecidableEq ι] {p : Platform ι} {s : Driver ι} {d : ι} {a : Answers}

structure Succeeds (a : Answers) : Prop where
  usb_add_config : ∀ i, 0 ≤ a.usb_add_config i
  bind_config : ∀ i j, a.bind_config i j = 0

section Configurations

omit [DecidableEq ι] in
theorem bind_succeeds {bind_config : ℕ → ℤ} (h : ∀ j, bind_config j = 0) (all fs : List Text)
    (i : ℕ) (b : Binding) : (android_bind_enabled_functions p bind_config all i fs b).1 = 0 := by
  induction fs generalizing i b with
  | nil => rfl
  | cons f fs ih =>
    rw [android_bind_enabled_functions, if_neg (by simp [h])]
    exact ih (i + 1) (bind_function b f)

omit [DecidableEq ι] in
theorem addConfigs_succeeds (h : Succeeds a) (i : ℕ) (confs : List Configuration) {err : ℤ}
    (herr : 0 ≤ err) (b : Binding) (added : List Entry) :
    0 ≤ (addConfigs p a i confs err b added).1 := by
  induction confs generalizing i err b added with
  | nil => exact herr
  | cons conf confs ih =>
    have hbind : (android_bind_config p a i conf b).1 = 0 :=
      bind_succeeds (h.bind_config i) conf.enabled_functions conf.enabled_functions 0 b
    unfold addConfigs
    rw [p.cdev.adds _ _ _ _ (h.usb_add_config i)]
    simp only [hbind, if_neg (Int.lt_irrefl 0)]
    exact ih (i + 1) (Int.le_refl 0) _ _

/-- The last enable connects the gadget. -/
theorem android_enable_connects (h : Succeeds a) (hdepth : (s.dev d).disable_depth = 1)
    (hadded : (s.dev d).added = []) (hvideo : s.video_enabled = false) :
    (android_enable p a d s).2.dev d = { s.dev d with
      disable_depth := 0
      added := (s.dev d).configs.map Configuration.entry
      connect := true } := by
  have hsucceeds := addConfigs_succeeds (p := p) h 0 (s.dev d).configs (Int.le_refl 0) s.binding
    (s.dev d).added
  have hcases := addConfigs_cases p a 0 (s.dev d).configs 0 s.binding (s.dev d).added
  rw [android_enable_eq, if_neg (by omega), if_pos hdepth]
  dsimp only
  generalize addConfigs p a 0 (s.dev d).configs 0 s.binding (s.dev d).added = r at hsucceeds hcases
  have hall : r.2.2 = (s.dev d).configs.map Configuration.entry := by
    rcases hcases with hall | ⟨herr, -⟩
    · rw [hall, hadded, List.nil_append]
    · omega
  rw [Driver.setGadget, setDev_same, hall, if_neg]
  simp only [hvideo, Bool.false_eq_true, or_false]
  omega

end Configurations

section Disable

variable {names : List Text}

/-- At depth 0 the disables of the functions change nothing any more. -/
theorem foldl_disableFunction_of_zero (howner : ffs ∈ names → s.android_dev ffs = some d)
    (hzero : (s.dev d).disable_depth = 0) :
    (names.foldl (disableFunction p a) s).dev = s.dev := by
  induction names generalizing s with
  | nil => rfl
  | cons f names ih =>
    have hstep : (disableFunction p a s f).dev = s.dev := by
      unfold disableFunction ffs_function_disable
      by_cases hffs : f = ffs
      · rw [if_pos hffs]
        dsimp only
        split_ifs
        · rfl
        · rw [howner (hffs ▸ List.mem_cons_self)]
          dsimp only
          rw [android_enable_eq, if_pos hzero]
      · rw [if_neg hffs]
        split_ifs <;> rfl
    have howner' := (sameLists_disableFunction (p := p) a s f).android_dev
    rw [List.foldl_cons, ih, hstep]
    · intro hmem
      rw [howner']
      exact howner (List.mem_cons_of_mem f hmem)
    · rw [hstep, hzero]

theorem disableFunction_closed (a : Answers) (howner : s.android_dev ffs = some d)
    (hclosed : s.ffsConfig.opened = false) : disableFunction p a s ffs =
      (android_enable p a d { s with ffsConfig := ⟨s.ffsConfig.opened, false⟩ }).2 := by
  rw [disableFunction, if_pos rfl, ffs_function_disable]
  dsimp only
  rw [if_neg (by simp [hclosed]), howner]

/-- As many disables of a closed `ffs` as the device is deep bring its gadget up. -/
theorem foldl_disableFunction_connects (h : Succeeds a)
    (howner : ffs ∈ names → s.android_dev ffs = some d) (hclosed : s.ffsConfig.opened = false)
    (hpos : 0 < (s.dev d).disable_depth) (hcount : (s.dev d).disable_depth ≤ names.count ffs)
    (hadded : (s.dev d).added = []) (hvideo : s.video_enabled = false) :
    (names.foldl (disableFunction p a) s).dev d = { s.dev d with
      disable_depth := 0
      added := (s.dev d).configs.map Configuration.entry
      connect := true } := by
  induction names generalizing s with
  | nil => exact absurd (Nat.le_zero.mp hcount) (by omega)
  | cons f names ih =>
    have howner' : ffs ∈ names → (disableFunction p a s f).android_dev ffs = some d := by
      intro hmem
      rw [(sameLists_disableFunction (p := p) a s f).android_dev]
      exact howner (List.mem_cons_of_mem f hmem)
    rw [List.foldl_cons]
    by_cases hffs : f = ffs
    · subst hffs
      revert howner'
      rw [disableFunction_closed a (howner List.mem_cons_self) hclosed]
      rw [List.count_cons_self] at hcount
      intro howner'
      by_cases hone : (s.dev d).disable_depth = 1
      · -- the enable that counts; those behind it find depth 0
        have hup := android_enable_connects (p := p) (d := d)
          (s := { s with ffsConfig := ⟨s.ffsConfig.opened, false⟩ }) h hone hadded hvideo
        rw [foldl_disableFunction_of_zero howner' (by rw [hup]), hup]
      · have hdeep : 1 < (s.dev d).disable_depth := by omega
        revert howner'
        rw [android_enable_of_lt a (by exact hdeep)]
        intro howner'
        rw [ih howner' hclosed]
        · simp [setDepth]
        · simp only [setDepth, setDev_same]
          omega
        · simp only [setDepth, setDev_same]
          omega
        · simpa [setDepth] using hadded
        · exact hvideo
    · rw [List.count_cons_of_ne hffs] at hcount
      revert howner'
      rw [disableFunction, if_neg hffs]
      split_ifs
      · intro howner'
        exact ih howner' hclosed hpos hcount hadded rfl
      · intro howner'
        exact ih howner' hclosed hpos hcount hadded hvideo

end Disable

section Stages

theorem android_enable_video (a : Answers) :
    (android_enable p a d s).2.video_enabled = s.video_enabled := by
  rw [android_enable_eq]
  split_ifs <;> rfl

theorem android_disable_video : (android_disable p d s).video_enabled = s.video_enabled := by
  rw [android_disable_eq]
  split_ifs <;> rfl

/-- A device whose `ffs` is open is enabled. -/
theorem enable_opened (hs : Accounted p s) (hidle : (s.dev d).enabled = false)
    (hopened : s.ffsConfig.opened = true) (hlisted : ffs ∈ (s.dev d).listed) :
    Accounted p (enable_store p d 1 a s) ∧ ((enable_store p d 1 a s).dev d).enabled = true ∧
      (enable_store p d 1 a s).ffsConfig = ⟨true, true⟩ ∧
      (enable_store p d 1 a s).video_enabled =
        (s.video_enabled || (s.dev d).listed.contains video) := by
  have hon : (1 : ℤ) ≠ 0 ∧ (s.dev d).enabled = false := ⟨by decide, hidle⟩
  obtain ⟨hdepth, -, -⟩ := (hs.gadget d).down (not_up_of_idle hidle)
  have hlists := sameLists_enable_store (p := p) d 1 a s
  have howned := hs.owned.sameLists hlists (enable_store_crashed hs.owned d 1 a)
  refine ⟨accounted_enable hs d a hon (Or.inl hopened) howned, ?_⟩
  rw [enable_store, if_pos hon, foldl_enableFunction (fun hmem => (hs.owned.owner ffs d).mp hmem)
    (show 0 < (s.dev d).disable_depth by omega)]
  dsimp only
  rw [setDev_same]
  refine ⟨rfl, ?_, ?_⟩
  · show (android_enable p a d _).2.ffsConfig = _
    rw [android_enable_ffsConfig]
    simp [raised, hopened, hlisted]
  · show (android_enable p a d _).2.video_enabled = _
    rw [android_enable_video]
    rfl

/-- The `ffs` of an enabled device is closed. -/
theorem close_enabled (hs : Accounted p s) (howner : s.android_dev ffs = some d)
    (hffs : s.ffsConfig = ⟨true, true⟩) :
    Accounted p (functionfs_closed_callback p s) ∧
      ((functionfs_closed_callback p s).dev d).enabled = (s.dev d).enabled ∧
      (functionfs_closed_callback p s).ffsConfig.opened = false ∧
      (functionfs_closed_callback p s).video_enabled = s.video_enabled := by
  have hlists := sameLists_closed (p := p) s
  have hclosed : functionfs_closed_callback p s = setOpened (android_disable p d s) false := by
    rw [closed_eq howner, if_pos (by rw [hffs])]
  have howned : Owned p (functionfs_closed_callback p s) := by
    apply hs.owned.sameLists hlists
    rw [hclosed]
    exact android_disable_crashed d s
  refine ⟨accounted_closed hs (fun _ => by rw [hffs]) howned, ?_⟩
  rw [hclosed]
  exact ⟨android_disable_enabled d, rfl, android_disable_video⟩

/-- The device is disabled, and its gadget comes up. -/
theorem disable_connects (h : Succeeds a) (hs : Accounted p s)
    (howner : s.android_dev ffs = some d) (hlive : (s.dev d).enabled = true)
    (hclosed : s.ffsConfig.opened = false) (hvideo : s.video_enabled = false)
    (htwice : 2 ≤ (s.dev d).listed.count ffs) :
    (enable_store p d 0 a s).dev d = { s.dev d with
      enabled := false
      disable_depth := 0
      added := (s.dev d).configs.map Configuration.entry
      connect := true } := by
  have hdown : ¬ Up s d := by
    intro ⟨_, hopened⟩
    rw [hopened howner] at hclosed
    cases hclosed
  obtain ⟨hdepth, hadded, -⟩ := (hs.gadget d).down hdown
  rw [enable_store, if_neg (by simp), if_pos ⟨rfl, hlive⟩,
    android_disable_of_pos (show 0 < (s.dev d).disable_depth by omega)]
  dsimp only
  have hlisted : ((setDepth s d ((s.dev d).disable_depth + 1)).dev d).listed =
      (s.dev d).listed := by
    simp [setDepth, AndroidDev.listed]
  have hcount : ((setDepth s d ((s.dev d).disable_depth + 1)).dev d).disable_depth ≤
      (s.dev d).listed.count ffs := by
    simp only [setDepth, setDev_same]
    omega
  have hfold := foldl_disableFunction_connects (p := p)
    (s := setDepth s d ((s.dev d).disable_depth + 1)) h (fun _ => howner) hclosed
    (by simp [setDepth]) hcount (by simpa [setDepth] using hadded) hvideo
  rw [hlisted, setDev_same, hfold]
  simp [setDepth]

end Stages

def scenario (d : ι) (buff : Text) (a : Answers) : List (Event ι) :=
  [.functions_store d buff, .functionfs_ready_callback a, .enable_store d 1 a,
    .functionfs_closed_callback, .enable_store d 0 a]

theorem scenario_dev (h : Succeeds a) (hs : Accounted p s) {buff : Text}
    (hidle : (s.dev d).enabled = false) (hvideo : s.video_enabled = false)
    (hlisted : video ∉ ((functions_store p d buff s).2.dev d).listed)
    (htwice : 2 ≤ ((functions_store p d buff s).2.dev d).listed.count ffs) :
    ∃ t, exec (step p) s (scenario d buff a) = some t ∧ (t.dev d).enabled = false ∧
      (t.dev d).connect = true ∧
      (t.dev d).added = ((functions_store p d buff s).2.dev d).configs.map Configuration.entry := by
  have hs₁ := accounted_functions_store hs d buff
  have hidle₁ : ((functions_store p d buff s).2.dev d).enabled = false := by
    rw [functions_store_idle hidle, setDev_same]
    exact hidle
  have hvideo₁ : (functions_store p d buff s).2.video_enabled = false := by
    rw [functions_store_idle hidle]
    exact hvideo
  have hstep : step p s (.functions_store d buff) = some (functions_store p d buff s).2 :=
    step_eq_some hs.owned.running
  rw [scenario, exec, hstep, Option.bind_some]
  revert hs₁ hidle₁ hvideo₁ hlisted htwice
  generalize (functions_store p d buff s).2 = s₁
  intro hlisted htwice hs₁ hidle₁ hvideo₁
  have hffs : ffs ∈ (s₁.dev d).listed := List.count_pos_iff.mp (by omega)
  have howner : s₁.android_dev ffs = some d := (hs₁.owned.owner ffs d).mp hffs
  have hoff : s₁.ffsConfig.enabled = false := (hs₁.live d howner).trans hidle₁
  have hready : (functionfs_ready_callback p a s₁).2 = setOpened s₁ true := by
    rw [ready_eq a howner, if_neg (by simp [hoff])]
  obtain ⟨hs₃, hlive, hffs₃, hvideo₃⟩ :=
    enable_opened (a := a) (accounted_setOpened hs₁ hoff true) hidle₁ rfl hffs
  have hlists₃ := sameLists_enable_store (p := p) d 1 a (setOpened s₁ true)
  have howner₃ : (enable_store p d 1 a (setOpened s₁ true)).android_dev ffs = some d := by
    rw [hlists₃.android_dev]
    exact howner
  obtain ⟨hs₄, hlive₄, hclosed, hvideo₄⟩ := close_enabled hs₃ howner₃ hffs₃
  have hlists₄ := sameLists_closed (p := p) (enable_store p d 1 a (setOpened s₁ true))
  have hfinal := disable_connects h hs₄ (by rw [hlists₄.android_dev]; exact howner₃)
    (hlive₄.trans hlive) hclosed
    (by
      rw [hvideo₄, hvideo₃]
      show (s₁.video_enabled || (s₁.dev d).listed.contains video) = false
      simp [hvideo₁, hlisted])
    (by
      rw [hlists₄.listed, hlists₃.listed]
      exact htwice)
  refine ⟨enable_store p d 0 a (functionfs_closed_callback p
    (enable_store p d 1 a (setOpened s₁ true))), ?_, ?_, ?_, ?_⟩
  · rw [exec, step_eq_some hs₁.owned.running]
    show (exec (step p) (functionfs_ready_callback p a s₁).2 _) = _
    rw [hready, exec, step_eq_some (s := setOpened s₁ true) hs₁.owned.running]
    show (exec (step p) (enable_store p d 1 a (setOpened s₁ true)) _) = _
    rw [exec, step_eq_some hs₃.owned.running]
    show (exec (step p) (functionfs_closed_callback p _) _) = _
    rw [exec, step_eq_some hs₄.owned.running]
    rfl
  · rw [hfinal]
  · rw [hfinal]
  · rw [hfinal]
    show ((functionfs_closed_callback p _).dev d).configs.map _ = _
    rw [hlists₄.configs, hlists₃.configs]
    rfl

/-- From whatever state an orderly run has left: the device ends disabled, its gadget
is connected, and no list that is stored then is kept from the configurations that
the composite driver has. -/
theorem doubled_ffs_connects {es : List (Event ι)}
    (horderly : AllSteps (step p) Orderly initial es) (hrun : exec (step p) initial es = some s)
    (h : Succeeds a) {buff : Text} (hidle : (s.dev d).enabled = false)
    (hvideo : s.video_enabled = false)
    (hlisted : video ∉ ((functions_store p d buff s).2.dev d).listed)
    (htwice : 2 ≤ ((functions_store p d buff s).2.dev d).listed.count ffs) :
    ∃ t, exec (step p) s (scenario d buff a) = some t ∧
      (t.dev d).enabled = false ∧ (t.dev d).connect = true ∧
      ∀ buff', (functions_store p d buff' t).1 = buff'.length ∧
        ((functions_store p d buff' t).2.dev d).added =
          ((functions_store p d buff s).2.dev d).configs.map Configuration.entry := by
  obtain ⟨t, ht, hoff, hconnect, hadded⟩ :=
    scenario_dev h (accounted_run horderly hrun).1 hidle hvideo hlisted htwice
  refine ⟨t, ht, hoff, hconnect, ?_⟩
  intro buff'
  rw [functions_store_idle hoff]
  refine ⟨rfl, ?_⟩
  rw [setDev_same]
  exact hadded

theorem doubled_ffs_connects_initial :
    ∃ t, exec (step twoDevices) initial (scenario false (ffs ++ ',' :: ffs) .success) = some t ∧
      (t.dev false).enabled = false ∧ (t.dev false).connect = true ∧
      ∀ buff', (functions_store twoDevices false buff' t).1 = buff'.length ∧
        ((functions_store twoDevices false buff' t).2.dev false).added = [(1, [ffs, ffs])] :=
  doubled_ffs_connects (show AllSteps _ Orderly initial [] from trivial) rfl
    ⟨fun _ => Int.le_refl 0, fun _ _ => rfl⟩ rfl rfl (by decide) (by decide)

end Fixed.DoubledFfs
