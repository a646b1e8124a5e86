import Fixed.AndroidDevice
import Mathlib.Data.List.Infix

/-!
The gadget of one device under `android_enable` and `android_disable`. A device
whose gadget is down has a depth above 0, and the composite driver has none of its
configurations. The last of as many enables adds the configurations in order, and
the first disable removes what was added. Enabling and disabling the functions of a
device changes its depth once for each `ffs` that is listed but not open.
-/
namespace Fixed.GadgetDepth

open AndroidDevice

variable {ι : Type*}

structure Gadget (isUp : Prop) (dev : AndroidDev) : Prop where
  up : isUp → dev.disable_depth = 0
  down : ¬ isUp → dev.disable_depth = 1 ∧ dev.added = [] ∧ dev.connect = false
  added : dev.added <+: dev.configs.map Configuration.entry
  connect : dev.connect = true → dev.added = dev.configs.map Configuration.entry

section Configurations

variable (p : Platform ι) (a : Answers)

theorem usb_add_config_cases (c : CompositeDriver) (err : ℤ) (bind : Binding → ℤ × Binding)
    (entry : Entry) (b : Binding) (added : List Entry) :
    (c.usb_add_config err bind entry b added).1 < 0 ∧
        (c.usb_add_config err bind entry b added).2.2 = added ∨
      ¬ (c.usb_add_config err bind entry b added).1 < 0 ∧
        (c.usb_add_config err bind entry b added).2.2 = added ++ [entry] := by
  by_cases hrefused : err < 0
  · rw [c.refuses bind entry b added hrefused]
    exact Or.inl ⟨hrefused, rfl⟩
  · rw [c.adds bind entry b added (Int.not_lt.mp hrefused)]
    dsimp only
    split_ifs with herr
    · exact Or.inl ⟨herr, rfl⟩
    · exact Or.inr ⟨herr, rfl⟩

/-- All configurations are added, or only the first ones and there is an error. -/
theorem addConfigs_cases (i : ℕ) (confs : List Configuration) (err : ℤ) (b : Binding)
    (added : List Entry) :
    (addConfigs p a i confs err b added).2.2 = added ++ confs.map Configuration.entry ∨
      (addConfigs p a i confs err b added).1 < 0 ∧
        (addConfigs p a i confs err b added).2.2 <+: added ++ confs.map Configuration.entry := by
  induction confs generalizing i err b added with
  | nil => exact Or.inl (List.append_nil added).symm
  | cons conf confs ih =>
    unfold addConfigs
    have hcases := usb_add_config_cases p.cdev (a.usb_add_config i)
      (android_bind_config p a i conf) conf.entry b added
    generalize p.cdev.usb_add_config (a.usb_add_config i) (android_bind_config p a i conf)
      conf.entry b added = r at hcases
    obtain ⟨err', b', added'⟩ := r
    dsimp only at hcases ⊢
    rcases hcases with ⟨herr, rfl⟩ | ⟨herr, rfl⟩
    · rw [if_pos herr]
      exact Or.inr ⟨herr, List.prefix_append added' _⟩
    · have happend : added ++ (conf :: confs).map Configuration.entry =
          (added ++ [conf.entry]) ++ confs.map Configuration.entry := by simp
      rw [if_neg herr, happend]
      exact ih (i + 1) err' b' (added ++ [conf.entry])

theorem removeConfig_cons (conf : Configuration) (b : Binding) (added : List Entry) :
    removeConfig p (b, conf.entry :: added) conf = (android_unbind_config p conf b, added) := by
  rw [removeConfig, p.cdev.removes _ _ List.mem_cons_self, List.erase_cons_head]

theorem removeConfig_nil (conf : Configuration) (b : Binding) :
    removeConfig p (b, []) conf = (b, []) := p.cdev.keeps _ _ List.not_mem_nil

/-- All configurations that were added are removed. -/
theorem foldl_removeConfig (confs : List Configuration) (b : Binding) {added : List Entry}
    (h : added <+: confs.map Configuration.entry) :
    (confs.foldl (removeConfig p) (b, added)).2 = [] := by
  induction confs generalizing b added with
  | nil => exact List.prefix_nil.mp h
  | cons conf confs ih =>
    rw [List.foldl_cons]
    cases added with
    | nil =>
      rw [removeConfig_nil]
      exact ih b List.nil_prefix
    | cons entry added =>
      obtain ⟨rfl, hrest⟩ := List.cons_prefix_cons.mp h
      rw [removeConfig_cons]
      exact ih _ hrest

end Configurations

variable [DecidableEq ι] {p : Platform ι} {s : Driver ι} {d : ι}

section Depth

def setDepth (s : Driver ι) (d : ι) (n : ℕ) : Driver ι :=
  s.setDev d fun dev => { dev with disable_depth := n }

theorem android_disable_of_pos (h : 0 < (s.dev d).disable_depth) :
    android_disable p d s = setDepth s d ((s.dev d).disable_depth + 1) := by
  rw [android_disable_eq, if_neg (by omega)]
  rfl

theorem android_enable_of_lt (a : Answers) (h : 1 < (s.dev d).disable_depth) :
    (android_enable p a d s).2 = setDepth s d ((s.dev d).disable_depth - 1) := by
  rw [android_enable_eq, if_neg (by omega), if_neg (by omega)]
  rfl

/-- The state once the functions of a device are enabled, from some depth above 0. -/
def raised (s : Driver ι) (d : ι) (names : List Text) : Driver ι :=
  { setDepth s d ((s.dev d).disable_depth +
      if s.ffsConfig.opened then 0 else names.count ffs) with
    ffsConfig := ⟨s.ffsConfig.opened, s.ffsConfig.enabled || names.contains ffs⟩
    video_enabled := s.video_enabled || names.contains video }

/-- The state once the functions of a device are disabled, from a depth above that of
the disables of `ffs`. -/
def lowered (s : Driver ι) (d : ι) (names : List Text) : Driver ι :=
  { setDepth s d ((s.dev d).disable_depth -
      if s.ffsConfig.opened then 0 else names.count ffs) with
    ffsConfig := ⟨s.ffsConfig.opened, s.ffsConfig.enabled && !names.contains ffs⟩
    video_enabled := s.video_enabled && !names.contains video }

theorem raised_dev_self (names : List Text) : (raised s d names).dev d = { s.dev d with
    disable_depth := (s.dev d).disable_depth +
      if s.ffsConfig.opened then 0 else names.count ffs } := by
  simp [raised, setDepth]

theorem raised_dev_of_ne (names : List Text) {e : ι} (h : e ≠ d) :
    (raised s d names).dev e = s.dev e := by
  simp [raised, setDepth, setDev_of_ne s h]

theorem lowered_dev_self (names : List Text) : (lowered s d names).dev d = { s.dev d with
    disable_depth := (s.dev d).disable_depth -
      if s.ffsConfig.opened then 0 else names.count ffs } := by
  simp [lowered, setDepth]

theorem lowered_dev_of_ne (names : List Text) {e : ι} (h : e ≠ d) :
    (lowered s d names).dev e = s.dev e := by
  simp [lowered, setDepth, setDev_of_ne s h]

theorem foldl_enableFunction {names : List Text}
    (howner : ffs ∈ names → s.android_dev ffs = some d) (hpos : 0 < (s.dev d).disable_depth) :
    names.foldl (enableFunction p) s = raised s d names := by
  unfold raised
  induction names generalizing s with
  | nil => simp [setDepth, Driver.setDev]
  | cons f names ih =>
    have howner' : ffs ∈ names → s.android_dev ffs = some d :=
      fun hmem => howner (List.mem_cons_of_mem f hmem)
    rw [List.foldl_cons]
    by_cases hffs : f = ffs
    · subst hffs
      have hd := howner List.mem_cons_self
      rw [enableFunction, if_pos rfl, ffs_function_enable]
      by_cases hopened : s.ffsConfig.opened = true
      · simp only [hopened, if_true]
        rw [ih]
        · simp [setDepth, Driver.setDev, video_ne_ffs]
        · exact howner'
        · exact hpos
      · simp only [hopened, hd]
        rw [android_disable_of_pos (by exact hpos), ih]
        · simp [setDepth, Driver.setDev, Nat.add_assoc, Nat.add_comm, video_ne_ffs]
        · exact howner'
        · simp [setDepth]
    · rw [enableFunction, if_neg hffs]
      by_cases hvideo : f = video
      · subst hvideo
        rw [if_pos rfl, ih, List.count_cons_of_ne hffs]
        · simp [setDepth, Driver.setDev, video_ne_ffs.symm]
        · exact howner'
        · exact hpos
      · rw [if_neg hvideo, ih howner' hpos, List.count_cons_of_ne hffs]
        simp [Ne.symm hffs, Ne.symm hvideo]

theorem foldl_disableFunction (a : Answers) {names : List Text}
    (howner : ffs ∈ names → s.android_dev ffs = some d)
    (hdepth : s.ffsConfig.opened = false → names.count ffs < (s.dev d).disable_depth) :
    names.foldl (disableFunction p a) s = lowered s d names := by
  unfold lowered
  induction names generalizing s with
  | nil => simp [setDepth, Driver.setDev]
  | cons f names ih =>
    have howner' : ffs ∈ names → s.android_dev ffs = some d :=
      fun hmem => howner (List.mem_cons_of_mem f hmem)
    rw [List.foldl_cons]
    by_cases hffs : f = ffs
    · subst hffs
      have hd := howner List.mem_cons_self
      rw [disableFunction, if_pos rfl, ffs_function_disable]
      simp only [List.count_cons_self] at hdepth
      by_cases hopened : s.ffsConfig.opened = true
      · simp only [hopened, if_true]
        rw [ih]
        · simp [setDepth, Driver.setDev, video_ne_ffs]
        · exact howner'
        · intro hclosed
          exact absurd hclosed (by simp)
      · have hclosed : s.ffsConfig.opened = false := by simpa using hopened
        have hlt := hdepth hclosed
        simp only [hclosed, hd]
        have hdeep : 1 < (s.dev d).disable_depth := by omega
        rw [if_neg (by simp), android_enable_of_lt a (by exact hdeep), ih]
        · simp [setDepth, Driver.setDev, Nat.sub_sub, Nat.add_comm, video_ne_ffs]
        · exact howner'
        · intro _
          simp only [setDepth, setDev_same]
          omega
    · rw [disableFunction, if_neg hffs]
      rw [List.count_cons_of_ne hffs] at hdepth ⊢
      by_cases hvideo : f = video
      · subst hvideo
        rw [if_pos rfl, ih]
        · simp [setDepth, Driver.setDev, video_ne_ffs.symm]
        · exact howner'
        · exact hdepth
      · rw [if_neg hvideo, ih howner' hdepth]
        simp [Ne.symm hffs, Ne.symm hvideo]

end Depth

section Gadget

theorem Gadget.of_iff {isUp isUp' : Prop} {dev : AndroidDev} (h : Gadget isUp dev)
    (hiff : isUp' ↔ isUp) : Gadget isUp' dev where
  up hup := h.up (hiff.mp hup)
  down hdown := h.down fun hup => hdown (hiff.mpr hup)
  added := h.added
  connect := h.connect

theorem android_enable_dev_of_ne (a : Answers) {e : ι} (h : e ≠ d) :
    (android_enable p a d s).2.dev e = s.dev e := by
  rw [android_enable_eq]
  split_ifs
  · rfl
  · exact setDev_of_ne _ h _
  · exact setDev_of_ne _ h _

theorem android_disable_dev_of_ne {e : ι} (h : e ≠ d) :
    (android_disable p d s).dev e = s.dev e := by
  rw [android_disable_eq]
  split_ifs
  · exact setDev_of_ne _ h _
  · exact setDev_of_ne _ h _

theorem android_enable_ffsConfig (a : Answers) :
    (android_enable p a d s).2.ffsConfig = s.ffsConfig := by
  rw [android_enable_eq]
  split_ifs <;> rfl

theorem android_disable_ffsConfig : (android_disable p d s).ffsConfig = s.ffsConfig := by
  rw [android_disable_eq]
  split_ifs <;> rfl

theorem android_enable_enabled (a : Answers) (e : ι) :
    ((android_enable p a d s).2.dev e).enabled = (s.dev e).enabled := by
  by_cases he : e = d
  · subst he
    rw [android_enable_eq]
    split_ifs
    · rfl
    · simp [Driver.setGadget]
    · simp [Driver.setGadget]
  · rw [android_enable_dev_of_ne a he]

theorem android_disable_enabled (e : ι) :
    ((android_disable p d s).dev e).enabled = (s.dev e).enabled := by
  by_cases he : e = d
  · subst he
    rw [android_disable_eq]
    split_ifs <;> simp [Driver.setGadget]
  · rw [android_disable_dev_of_ne he]

/-- The last enable brings the gadget up. -/
theorem gadget_android_enable (a : Answers) (h : Gadget False (s.dev d)) :
    Gadget True ((android_enable p a d s).2.dev d) := by
  obtain ⟨hdepth, hadded, hconnect⟩ := h.down not_false
  have hcases := addConfigs_cases p a 0 (s.dev d).configs 0 s.binding (s.dev d).added
  rw [android_enable_eq, if_neg (by omega), if_pos hdepth]
  dsimp only
  generalize addConfigs p a 0 (s.dev d).configs 0 s.binding (s.dev d).added = r at hcases
  rw [hadded, List.nil_append] at hcases
  simp only [Driver.setGadget, setDev_same, hconnect]
  constructor
  · exact fun _ => rfl
  · exact fun hdown => absurd trivial hdown
  · rcases hcases with hall | ⟨-, hsome⟩
    · exact hall ▸ List.prefix_rfl
    · exact hsome
  · intro hup
    rcases hcases with hall | ⟨herr, -⟩
    · exact hall
    · simp [herr] at hup

/-- The first disable takes the gadget down. -/
theorem gadget_android_disable (h : Gadget True (s.dev d)) :
    Gadget False ((android_disable p d s).dev d) := by
  have hremoved := foldl_removeConfig p (s.dev d).configs s.binding h.added
  rw [android_disable_eq, if_pos (h.up trivial)]
  simp only [Driver.setGadget, setDev_same]
  constructor
  · exact fun hup => hup.elim
  · exact fun _ => ⟨rfl, hremoved, rfl⟩
  · exact hremoved ▸ List.nil_prefix
  · exact fun hup => absurd hup (by simp)

/-- What a gadget looks like that is down, whatever its depth. -/
theorem Gadget.setDepth_one {dev : AndroidDev} (h : Gadget False dev) :
    { dev with disable_depth := 1 } = dev := by
  obtain ⟨hdepth, -, -⟩ := h.down not_false
  rw [← hdepth]

end Gadget

end Fixed.GadgetDepth
