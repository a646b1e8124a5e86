import Fixed.CString
import Mathlib.Data.Int.Notation
import Mathlib.Logic.Function.Basic

/-!
The devices of `android.c` and what user space does to them: the attribute files
`functions`, `enable`, `aliases` and `remote_wakeup`, and the callbacks of the
functions `ffs` and `video`. A function is given by its name, which no other
function of the tables has. How functions are bound is decided outside this
repository, and allocations succeed. The composite driver is outside this repository
too: it is a parameter, which keeps the list of the configurations added to it.
-/
namespace Fixed.AndroidDevice

open CString

abbrev Text := List Char

def EINVAL : ℤ := 22
def EBUSY : ℤ := 16
def ENODEV : ℤ := 19

def isspace (c : Char) : Bool := c = ' ' || 9 ≤ c.toNat && c.toNat ≤ 13 || c.toNat = 160

def ffs : Text := ['f', 'f', 's']
def video : Text := ['v', 'i', 'd', 'e', 'o']
def rndis : Text := ['r', 'n', 'd', 'i', 's']
def rndis_qc : Text := ['r', 'n', 'd', 'i', 's', '_', 'q', 'c']
def BAM2BAM_IPA : Text := ['B', 'A', 'M', '2', 'B', 'A', 'M', '_', 'I', 'P', 'A']

theorem video_ne_ffs : video ≠ ffs := by decide

def bufferSize : ℕ := 256

def MAX_XPORT_STR_LEN : ℕ := 50

structure Configuration where
  bConfigurationValue : ℕ
  /-- `USB_CONFIG_ATT_WAKEUP` of `bmAttributes`. -/
  wakeup : Bool
  enabled_functions : List Text
deriving DecidableEq

/-- A configuration as it was when the composite driver took it. -/
abbrev Entry := ℕ × List Text

def Configuration.entry (conf : Configuration) : Entry :=
  (conf.bConfigurationValue, conf.enabled_functions)

structure AndroidDev where
  enabled : Bool
  disable_depth : ℕ
  configs : List Configuration
  configs_num : ℕ
  ffs_aliases : Text
  /-- The configurations the composite driver has. -/
  added : List Entry
  /-- The last of `usb_gadget_connect` and `usb_gadget_disconnect` was the first. -/
  connect : Bool

structure FunctionfsConfig where
  opened : Bool
  enabled : Bool

structure Binding where
  /-- `bound` of the functions. -/
  bound : Text → Bool
  /-- The calls of `bind_config` that succeeded, less those of `unbind_config`. -/
  binds : Text → ℤ

structure Driver (ι : Type*) where
  dev : ι → AndroidDev
  /-- `android_dev` of the functions. -/
  android_dev : Text → Option ι
  binding : Binding
  ffsConfig : FunctionfsConfig
  video_enabled : Bool
  rndis_transports : Text
  /-- A null `android_dev` was followed. -/
  crashed : Bool

/-- The calls of the composite driver, and what it documents of them. Each is given the
callback of the configuration. -/
structure CompositeDriver where
  /-- Given also the error found before the configuration is bound, or 0. -/
  usb_add_config : ℤ → (Binding → ℤ × Binding) → Entry → Binding → List Entry →
    ℤ × Binding × List Entry
  usb_remove_config : (Binding → Binding) → Entry → Binding → List Entry → Binding × List Entry
  refuses : ∀ {err : ℤ} (bind entry b added), err < 0 →
    usb_add_config err bind entry b added = (err, b, added)
  /-- A configuration is kept unless its `bind` fails. -/
  adds : ∀ {err : ℤ} (bind entry b added), 0 ≤ err → usb_add_config err bind entry b added =
    ((bind b).1, (bind b).2, if (bind b).1 < 0 then added else added ++ [entry])
  removes : ∀ (unbind : Binding → Binding) (b : Binding) {entry : Entry} {added : List Entry},
    entry ∈ added → usb_remove_config unbind entry b added = (unbind b, added.erase entry)
  /-- One that is not there is not removed. -/
  keeps : ∀ (unbind : Binding → Binding) (b : Binding) {entry : Entry} {added : List Entry},
    entry ∉ added → usb_remove_config unbind entry b added = (b, added)

structure Platform (ι : Type*) where
  functions : ι → List Text
  /-- The first device of `android_dev_list`. -/
  first : ι
  /-- The functions that have an `unbind_config`. -/
  unbind_config : Text → Bool
  cdev : CompositeDriver

/-- The results of the calls made while the configurations of a device are added:
those of `usb_add_config` before it binds, and those of `bind_config`. -/
structure Answers where
  usb_add_config : ℕ → ℤ
  bind_config : ℕ → ℕ → ℤ

variable {ι : Type*} [DecidableEq ι]

def Driver.setDev (s : Driver ι) (d : ι) (g : AndroidDev → AndroidDev) : Driver ι :=
  { s with dev := Function.update s.dev d (g (s.dev d)) }

section Binding

variable (p : Platform ι)

def unbind_function (b : Binding) (f : Text) : Binding where
  bound := Function.update b.bound f false
  binds := if b.bound f ∧ p.unbind_config f then Function.update b.binds f (b.binds f - 1)
    else b.binds

def android_unbind_enabled_functions (b : Binding) (enabled_functions : List Text) : Binding :=
  enabled_functions.foldl (unbind_function p) b

def bind_function (b : Binding) (f : Text) : Binding where
  bound := Function.update b.bound f true
  binds := Function.update b.binds f (b.binds f + 1)

/-- The loop from function `i` on; `all` are the functions of the configuration. -/
def android_bind_enabled_functions (bind_config : ℕ → ℤ) (all : List Text) :
    ℕ → List Text → Binding → ℤ × Binding
  | _, [], b => (0, b)
  | i, f :: fs, b =>
    if bind_config i ≠ 0 then (bind_config i, android_unbind_enabled_functions p b all)
    else android_bind_enabled_functions bind_config all (i + 1) fs (bind_function b f)

def android_bind_config (a : Answers) (i : ℕ) (conf : Configuration) (b : Binding) :
    ℤ × Binding :=
  android_bind_enabled_functions p (a.bind_config i) conf.enabled_functions 0
    conf.enabled_functions b

def android_unbind_config (conf : Configuration) (b : Binding) : Binding :=
  android_unbind_enabled_functions p b conf.enabled_functions

def addConfigs (a : Answers) :
    ℕ → List Configuration → ℤ → Binding → List Entry → ℤ × Binding × List Entry
  | _, [], err, b, added => (err, b, added)
  | i, conf :: confs, _, b, added =>
    let (err, b, added) := p.cdev.usb_add_config (a.usb_add_config i)
      (android_bind_config p a i conf) conf.entry b added
    if err < 0 then (err, b, added) else addConfigs a (i + 1) confs err b added

def removeConfig (r : Binding × List Entry) (conf : Configuration) : Binding × List Entry :=
  p.cdev.usb_remove_config (android_unbind_config p conf) conf.entry r.1 r.2

end Binding

section Depth

variable (p : Platform ι)

def android_enable (a : Answers) (d : ι) (s : Driver ι) : ℤ × Driver ι :=
  if (s.dev d).disable_depth = 0 then (0, s)
  else
    let s := s.setDev d fun dev => { dev with disable_depth := dev.disable_depth - 1 }
    if (s.dev d).disable_depth = 0 then
      let (err, b, added) := addConfigs p a 0 (s.dev d).configs 0 s.binding (s.dev d).added
      let s := { s with binding := b }.setDev d fun dev => { dev with added := added }
      if err < 0 then (err, s)
      else (err, if s.video_enabled then s else s.setDev d fun dev => { dev with connect := true })
    else (0, s)

def android_disable (d : ι) (s : Driver ι) : Driver ι :=
  let s :=
    if (s.dev d).disable_depth = 0 then
      let (b, added) := (s.dev d).configs.foldl (removeConfig p) (s.binding, (s.dev d).added)
      { s with binding := b }.setDev d fun dev => { dev with added := added, connect := false }
    else s
  s.setDev d fun dev => { dev with disable_depth := dev.disable_depth + 1 }

def ffs_function_enable (s : Driver ι) : Driver ι :=
  let s := { s with ffsConfig := { s.ffsConfig with enabled := true } }
  if s.ffsConfig.opened then s
  else
    match s.android_dev ffs with
    | some d => android_disable p d s
    | none => { s with crashed := true }

def ffs_function_disable (a : Answers) (s : Driver ι) : Driver ι :=
  let s := { s with ffsConfig := { s.ffsConfig with enabled := false } }
  if s.ffsConfig.opened then s
  else
    match s.android_dev ffs with
    | some d => (android_enable p a d s).2
    | none => { s with crashed := true }

def enableFunction (s : Driver ι) (f : Text) : Driver ι :=
  if f = ffs then ffs_function_enable p s
  else if f = video then { s with video_enabled := true }
  else s

def disableFunction (a : Answers) (s : Driver ι) (f : Text) : Driver ι :=
  if f = ffs then ffs_function_disable p a s
  else if f = video then { s with video_enabled := false }
  else s

def AndroidDev.listed (dev : AndroidDev) : List Text :=
  dev.configs.flatMap Configuration.enabled_functions

/-- `enabled` is what `sscanf` read. -/
def enable_store (d : ι) (enabled : ℤ) (a : Answers) (s : Driver ι) : Driver ι :=
  if enabled ≠ 0 ∧ (s.dev d).enabled = false then
    let s := (s.dev d).listed.foldl (enableFunction p) s
    (android_enable p a d s).2.setDev d fun dev => { dev with enabled := true }
  else if enabled = 0 ∧ (s.dev d).enabled = true then
    let s := android_disable p d s
    let s := (s.dev d).listed.foldl (disableFunction p a) s
    s.setDev d fun dev => { dev with enabled := false }
  else s

def functionfs_ready_callback (a : Answers) (s : Driver ι) : ℤ × Driver ι :=
  match s.android_dev ffs with
  | none => (-ENODEV, s)
  | some d =>
    let s := { s with ffsConfig := { s.ffsConfig with opened := true } }
    (0, if s.ffsConfig.enabled then (android_enable p a d s).2 else s)

def functionfs_closed_callback (s : Driver ι) : Driver ι :=
  let s :=
    match s.android_dev ffs with
    | some d => if s.ffsConfig.enabled then android_disable p d s else s
    | none => s
  { s with ffsConfig := { s.ffsConfig with opened := false } }

def video_ready_callback (s : Driver ι) : ℤ × Driver ι :=
  match s.android_dev video with
  | none => (-ENODEV, s)
  | some d => (0, s.setDev d fun dev => { dev with connect := true })

def video_closed_callback (s : Driver ι) : ℤ × Driver ι :=
  match s.android_dev video with
  | none => (-ENODEV, s)
  | some d => (0, s.setDev d fun dev => { dev with connect := false })

end Depth

section Listing

structure Listing (ι : Type*) where
  android_dev : Text → Option ι
  rndis_transports : Text
  ffs_enabled : Bool
  enabled_functions : List Text

def android_enable_function (d : ι) (name : Text) : List Text → Listing ι → ℤ × Listing ι
  | [], l => (-EINVAL, l)
  | f :: functions, l =>
    if name = f then
      if l.android_dev f ≠ none ∧ l.android_dev f ≠ some d then
        android_enable_function d name functions l
      else
        (0, { l with
          android_dev := Function.update l.android_dev f (some d)
          enabled_functions := l.enabled_functions ++ [f] })
    else android_enable_function d name functions l

variable (p : Platform ι)

/-- One round of the inner loop of `functions_store`. `strim` cuts `rndis_transports` in
place. -/
def listName (d : ι) (ffs_aliases : Text) (l : Listing ι) (name : Text) : Listing ι :=
  if name ∈ fields ffs_aliases ',' then
    if l.ffs_enabled then l
    else
      let (err, l) := android_enable_function d ffs (p.functions d) l
      if err ≠ 0 then l else { l with ffs_enabled := true }
  else
    let enabled := if name = rndis ∧ strim isspace l.rndis_transports = BAM2BAM_IPA then rndis_qc
      else name
    let l := { l with rndis_transports :=
      if name = rndis then strimBuffer isspace l.rndis_transports else l.rndis_transports }
    (android_enable_function d enabled (p.functions d) l).2

/-- `alloc_android_config`, where `configs_num` has been counted up; the value of
the configuration is a byte. -/
def alloc_android_config (configs_num : ℕ) : Configuration := ⟨configs_num % 256, false, []⟩

/-- The loop over the configurations of the text. The rest of the old list is
taken over first, and freed if it is left over. -/
def listConfigs (d : ι) (ffs_aliases : Text) :
    List Text → List Configuration → ℕ → Listing ι → Listing ι × ℕ × List Configuration
  | [], configs, configs_num, l => (l, configs_num - configs.length, [])
  | conf_str :: b, configs, configs_num, l =>
    let (conf, configs, configs_num) := match configs with
      | conf :: configs => (conf, configs, configs_num)
      | [] => (alloc_android_config (configs_num + 1), [], configs_num + 1)
    let l := (fields conf_str ',').foldl (listName p d ffs_aliases)
      { l with enabled_functions := [] }
    let (r, configs_num, configs) := listConfigs d ffs_aliases b configs configs_num l
    (r, configs_num, { conf with enabled_functions := l.enabled_functions } :: configs)

def clearFunctions (s : Driver ι) (d : ι) : Text → Option ι :=
  (s.dev d).listed.foldl (fun android_dev f => Function.update android_dev f none) s.android_dev

def storeLists (d : ι) (buff : Text) (s : Driver ι) : Listing ι × ℕ × List Configuration :=
  listConfigs p d (s.dev d).ffs_aliases (fields (strim isspace (strlcpy buff bufferSize)) ':')
    (s.dev d).configs (s.dev d).configs_num ⟨clearFunctions s d, s.rndis_transports, false, []⟩

def functions_store (d : ι) (buff : Text) (s : Driver ι) : ℤ × Driver ι :=
  if (s.dev d).enabled then (-EBUSY, s)
  else
    let r := storeLists p d buff s
    (buff.length,
      { s with
        android_dev := r.1.android_dev
        rndis_transports := r.1.rndis_transports }.setDev d fun dev =>
          { dev with configs := r.2.2, configs_num := r.2.1 })

/-- Each name with its comma; the last comma of what is there becomes a colon where
the next configuration begins. -/
def functions_show_loop : List Configuration → Text → Text
  | [], buf => buf
  | conf :: configs, buf =>
    functions_show_loop configs
      ((if buf = [] then [] else buf.dropLast ++ [':']) ++
        conf.enabled_functions.flatMap fun name => name ++ [','])

def functions_show (d : ι) (s : Driver ι) : Text :=
  let buf := functions_show_loop (s.dev d).configs []
  if buf = [] then [] else buf.dropLast ++ ['\n']

def ffs_aliases_store (buf : Text) (s : Driver ι) : ℤ × Driver ι :=
  if (s.dev p.first).enabled then (-EBUSY, s)
  else
    (buf.length, s.setDev p.first fun dev =>
      { dev with ffs_aliases := strlcpy (strim isspace (strlcpy buf bufferSize)) bufferSize })

def remote_wakeup_show (d : ι) (s : Driver ι) : Option Bool :=
  if (s.dev d).configs_num = 0 then none
  else (s.dev d).configs.head?.map Configuration.wakeup

def remote_wakeup_store (d : ι) (enable : ℤ) (s : Driver ι) : Driver ι :=
  s.setDev d fun dev => { dev with
    configs := dev.configs.map fun conf => { conf with wakeup := decide (enable ≠ 0) } }

def rndis_transports_store (buf : Text) (s : Driver ι) : Driver ι :=
  { s with rndis_transports := strlcpy buf MAX_XPORT_STR_LEN }

end Listing

inductive Event (ι : Type*)
  | functions_store (d : ι) (buff : Text)
  | ffs_aliases_store (buf : Text)
  | enable_store (d : ι) (enabled : ℤ) (a : Answers)
  | remote_wakeup_store (d : ι) (enable : ℤ)
  | rndis_transports_store (buf : Text)
  | functionfs_ready_callback (a : Answers)
  | functionfs_closed_callback
  | video_ready_callback
  | video_closed_callback

def handle (p : Platform ι) (s : Driver ι) : Event ι → Driver ι
  | .functions_store d buff => (functions_store p d buff s).2
  | .ffs_aliases_store buf => (ffs_aliases_store p buf s).2
  | .enable_store d enabled a => enable_store p d enabled a s
  | .remote_wakeup_store d enable => remote_wakeup_store d enable s
  | .rndis_transports_store buf => rndis_transports_store buf s
  | .functionfs_ready_callback a => (functionfs_ready_callback p a s).2
  | .functionfs_closed_callback => functionfs_closed_callback p s
  | .video_ready_callback => (video_ready_callback s).2
  | .video_closed_callback => (video_closed_callback s).2

/-- A crash ends a run. -/
def step (p : Platform ι) (s : Driver ι) (e : Event ι) : Option (Driver ι) :=
  if s.crashed then none else some (handle p s e)

def AndroidDev.initial : AndroidDev := ⟨false, 1, [], 0, [], [], false⟩

/-- The driver behind `android_bind` of each device. -/
def initial : Driver ι where
  dev _ := .initial
  android_dev _ := none
  binding := ⟨fun _ => false, fun _ => 0⟩
  ffsConfig := ⟨false, false⟩
  video_enabled := false
  rndis_transports := []
  crashed := false

def configList : CompositeDriver where
  usb_add_config err bind entry b added :=
    if err < 0 then (err, b, added)
    else ((bind b).1, (bind b).2, if (bind b).1 < 0 then added else added ++ [entry])
  usb_remove_config unbind entry b added :=
    if entry ∈ added then (unbind b, added.erase entry) else (b, added)
  refuses _ _ _ _ h := if_pos h
  adds _ _ _ _ h := if_neg (Int.not_lt.mpr h)
  removes _ _ _ _ h := if_pos h
  keeps _ _ _ _ h := if_neg h

def twoDevices : Platform Bool :=
  ⟨fun _ => [ffs, rndis, rndis_qc], false, fun f => f ≠ ffs, configList⟩

def Answers.success : Answers := ⟨fun _ => 0, fun _ _ => 0⟩

section SameLists

variable {ι : Type*} {s t u : Driver ι}

structure SameLists (s t : Driver ι) : Prop where
  android_dev : t.android_dev = s.android_dev
  configs : ∀ d, (t.dev d).configs = (s.dev d).configs
  configs_num : ∀ d, (t.dev d).configs_num = (s.dev d).configs_num

theorem SameLists.refl (s : Driver ι) : SameLists s s := ⟨rfl, fun _ => rfl, fun _ => rfl⟩

theorem SameLists.trans (h : SameLists s t) (h' : SameLists t u) : SameLists s u where
  android_dev := h'.android_dev.trans h.android_dev
  configs d := (h'.configs d).trans (h.configs d)
  configs_num d := (h'.configs_num d).trans (h.configs_num d)

theorem SameLists.listed (h : SameLists s t) (d : ι) : (t.dev d).listed = (s.dev d).listed := by
  rw [AndroidDev.listed, h.configs d, AndroidDev.listed]

theorem sameLists_setFfsConfig (s : Driver ι) (config : FunctionfsConfig) :
    SameLists s { s with ffsConfig := config } := ⟨rfl, fun _ => rfl, fun _ => rfl⟩

theorem sameLists_foldl {f : Driver ι → Text → Driver ι} (h : ∀ s name, SameLists s (f s name))
    (names : List Text) (s : Driver ι) : SameLists s (names.foldl f s) := by
  induction names generalizing s with
  | nil => exact .refl s
  | cons name names ih => exact (h s name).trans (ih (f s name))

theorem clearFunctions_apply (s : Driver ι) (d : ι) (f : Text) :
    clearFunctions s d f = if f ∈ (s.dev d).listed then none else s.android_dev f := by
  unfold clearFunctions
  generalize s.android_dev = o
  induction (s.dev d).listed generalizing o with
  | nil => simp
  | cons g gs ih =>
    rw [List.foldl_cons, ih]
    by_cases hgs : f ∈ gs
    · simp [hgs]
    · by_cases hg : f = g
      · simp [hg]
      · simp [hgs, hg]

end SameLists

section Effects

variable {p : Platform ι} {s t : Driver ι}

theorem setDev_dev (s : Driver ι) (d e : ι) (g : AndroidDev → AndroidDev) :
    (s.setDev d g).dev e = if e = d then g (s.dev d) else s.dev e :=
  Function.update_apply _ _ _ _

@[simp] theorem setDev_same (s : Driver ι) (d : ι) (g : AndroidDev → AndroidDev) :
    (s.setDev d g).dev d = g (s.dev d) := Function.update_self _ _ _

theorem setDev_of_ne (s : Driver ι) {d e : ι} (h : e ≠ d) (g : AndroidDev → AndroidDev) :
    (s.setDev d g).dev e = s.dev e := Function.update_of_ne h _ _

@[simp] theorem setDev_binding (s : Driver ι) (d : ι) (g : AndroidDev → AndroidDev) :
    (s.setDev d g).binding = s.binding := rfl

def Driver.setGadget (s : Driver ι) (d : ι) (b : Binding) (disable_depth : ℕ)
    (added : List Entry) (connect : Bool) : Driver ι :=
  { s with binding := b }.setDev d fun dev =>
    { dev with disable_depth := disable_depth, added := added, connect := connect }

/-- What `android_enable` can do. -/
theorem android_enable_eq (p : Platform ι) (a : Answers) (d : ι) (s : Driver ι) :
    (android_enable p a d s).2 =
      if (s.dev d).disable_depth = 0 then s
      else if (s.dev d).disable_depth = 1 then
        let r := addConfigs p a 0 (s.dev d).configs 0 s.binding (s.dev d).added
        s.setGadget d r.2.1 0 r.2.2
          (if r.1 < 0 ∨ s.video_enabled then (s.dev d).connect else true)
      else s.setGadget d s.binding ((s.dev d).disable_depth - 1) (s.dev d).added
        (s.dev d).connect := by
  unfold android_enable Driver.setGadget
  by_cases hzero : (s.dev d).disable_depth = 0
  · rw [if_pos hzero, if_pos hzero]
  · rw [if_neg hzero, if_neg hzero]
    by_cases hone : (s.dev d).disable_depth = 1
    · have hlast : (s.dev d).disable_depth - 1 = 0 := by omega
      rcases hr : addConfigs p a 0 (s.dev d).configs 0 s.binding (s.dev d).added with
        ⟨err, b, added⟩
      simp only [setDev_same, setDev_binding, hlast, if_pos hone, if_true, hr]
      by_cases herr : err < 0
      · simp [herr, Driver.setDev, hone]
      · by_cases hvideo : s.video_enabled = true
        · simp [herr, hvideo, Driver.setDev, hone]
        · simp [herr, hvideo, Driver.setDev, hone]
    · have hlast : (s.dev d).disable_depth - 1 ≠ 0 := by omega
      simp only [setDev_same, if_neg hlast, if_neg hone]
      rfl

/-- What `android_disable` can do. -/
theorem android_disable_eq (p : Platform ι) (d : ι) (s : Driver ι) :
    android_disable p d s =
      if (s.dev d).disable_depth = 0 then
        let r := (s.dev d).configs.foldl (removeConfig p) (s.binding, (s.dev d).added)
        s.setGadget d r.1 1 r.2 false
      else s.setGadget d s.binding ((s.dev d).disable_depth + 1) (s.dev d).added
        (s.dev d).connect := by
  unfold android_disable Driver.setGadget
  by_cases hzero : (s.dev d).disable_depth = 0
  · rw [if_pos hzero, if_pos hzero]
    simp [hzero, Driver.setDev]
  · simp only [if_neg hzero]
    rfl

theorem SameLists.setDev (h : SameLists s t) (d : ι) {g : AndroidDev → AndroidDev}
    (hconfigs : ∀ dev, (g dev).configs = dev.configs)
    (hnum : ∀ dev, (g dev).configs_num = dev.configs_num) : SameLists s (t.setDev d g) where
  android_dev := h.android_dev
  configs e := by
    rw [setDev_dev]
    split_ifs with he
    · rw [hconfigs, he, h.configs]
    · exact h.configs e
  configs_num e := by
    rw [setDev_dev]
    split_ifs with he
    · rw [hnum, he, h.configs_num]
    · exact h.configs_num e

theorem sameLists_setGadget (s : Driver ι) (d : ι) (b : Binding) (n : ℕ) (added : List Entry)
    (connect : Bool) : SameLists s (s.setGadget d b n added connect) := by
  have hbinding : SameLists s { s with binding := b } := ⟨rfl, fun _ => rfl, fun _ => rfl⟩
  unfold Driver.setGadget
  apply hbinding.setDev
  all_goals
    intro dev
    rfl

theorem sameLists_android_enable (a : Answers) (d : ι) (s : Driver ι) :
    SameLists s (android_enable p a d s).2 := by
  rw [android_enable_eq]
  split_ifs
  · exact .refl s
  · exact sameLists_setGadget s d _ _ _ _
  · exact sameLists_setGadget s d _ _ _ _

theorem sameLists_android_disable (d : ι) (s : Driver ι) :
    SameLists s (android_disable p d s) := by
  rw [android_disable_eq]
  split_ifs
  · exact sameLists_setGadget s d _ _ _ _
  · exact sameLists_setGadget s d _ _ _ _

theorem sameLists_ffs_function_enable (s : Driver ι) : SameLists s (ffs_function_enable p s) := by
  unfold ffs_function_enable
  dsimp only
  split_ifs
  · exact sameLists_setFfsConfig s _
  · split
    · exact (sameLists_setFfsConfig s _).trans (sameLists_android_disable _ _)
    · exact ⟨rfl, fun _ => rfl, fun _ => rfl⟩

theorem sameLists_ffs_function_disable (a : Answers) (s : Driver ι) :
    SameLists s (ffs_function_disable p a s) := by
  unfold ffs_function_disable
  dsimp only
  split_ifs
  · exact sameLists_setFfsConfig s _
  · split
    · exact (sameLists_setFfsConfig s _).trans (sameLists_android_enable _ _ _)
    · exact ⟨rfl, fun _ => rfl, fun _ => rfl⟩

theorem sameLists_enableFunction (s : Driver ι) (f : Text) :
    SameLists s (enableFunction p s f) := by
  unfold enableFunction
  split_ifs
  · exact sameLists_ffs_function_enable s
  · exact ⟨rfl, fun _ => rfl, fun _ => rfl⟩
  · exact .refl s

theorem sameLists_disableFunction (a : Answers) (s : Driver ι) (f : Text) :
    SameLists s (disableFunction p a s f) := by
  unfold disableFunction
  split_ifs
  · exact sameLists_ffs_function_disable a s
  · exact ⟨rfl, fun _ => rfl, fun _ => rfl⟩
  · exact .refl s

theorem sameLists_enable_store (d : ι) (enabled : ℤ) (a : Answers) (s : Driver ι) :
    SameLists s (enable_store p d enabled a s) := by
  unfold enable_store
  split_ifs
  · exact ((sameLists_foldl sameLists_enableFunction _ s).trans
      (sameLists_android_enable a d _)).setDev d (fun _ => rfl) fun _ => rfl
  · exact ((sameLists_android_disable d s).trans
      (sameLists_foldl (sameLists_disableFunction a) _ _)).setDev d (fun _ => rfl) fun _ => rfl
  · exact .refl s

theorem sameLists_ready (a : Answers) (s : Driver ι) :
    SameLists s (functionfs_ready_callback p a s).2 := by
  unfold functionfs_ready_callback
  split
  · exact .refl s
  · dsimp only
    split_ifs
    · exact (sameLists_setFfsConfig s _).trans (sameLists_android_enable a _ _)
    · exact sameLists_setFfsConfig s _

theorem sameLists_closed (s : Driver ι) : SameLists s (functionfs_closed_callback p s) := by
  unfold functionfs_closed_callback
  split
  · split_ifs
    · exact (sameLists_android_disable _ s).trans (sameLists_setFfsConfig _ _)
    · exact sameLists_setFfsConfig s _
  · exact sameLists_setFfsConfig s _

theorem functions_store_idle {d : ι} (hidle : (s.dev d).enabled = false) (buff : Text) :
    functions_store p d buff s =
      (↑buff.length, { s with
        android_dev := (storeLists p d buff s).1.android_dev
        rndis_transports := (storeLists p d buff s).1.rndis_transports }.setDev d fun dev =>
          { dev with
            configs := (storeLists p d buff s).2.2
            configs_num := (storeLists p d buff s).2.1 }) := by
  rw [functions_store, if_neg (by simp [hidle])]

theorem functions_store_other {d e : ι} (he : e ≠ d) (buff : Text) :
    (functions_store p d buff s).2.dev e = s.dev e := by
  by_cases hidle : (s.dev d).enabled = false
  · rw [functions_store_idle hidle, setDev_of_ne _ he]
  · rw [functions_store, if_pos (by simpa using hidle)]

theorem sameLists_ffs_aliases_store (buf : Text) (s : Driver ι) :
    SameLists s (ffs_aliases_store p buf s).2 := by
  unfold ffs_aliases_store
  split_ifs
  · exact .refl s
  · dsimp only
    apply (SameLists.refl s).setDev
    all_goals
      intro dev
      rfl

theorem sameLists_video_ready (s : Driver ι) : SameLists s (video_ready_callback s).2 := by
  unfold video_ready_callback
  split
  · exact .refl s
  · dsimp only
    apply (SameLists.refl s).setDev
    all_goals
      intro dev
      rfl

theorem sameLists_video_closed (s : Driver ι) : SameLists s (video_closed_callback s).2 := by
  unfold video_closed_callback
  split
  · exact .refl s
  · dsimp only
    apply (SameLists.refl s).setDev
    all_goals
      intro dev
      rfl

theorem step_eq_some {e : Event ι} (h : s.crashed = false) : step p s e = some (handle p s e) := by
  rw [step, if_neg (by simp [h])]

/-- Only two of the attribute files touch the lists, and no callback does. -/
theorem sameLists_step {e : Event ι} (h : step p s e = some t)
    (hstore : ∀ d buff, e ≠ .functions_store d buff)
    (hwakeup : ∀ d enable, e ≠ .remote_wakeup_store d enable) : SameLists s t := by
  unfold step at h
  split_ifs at h
  obtain rfl := Option.some.inj h
  cases e with
  | functions_store d buff => exact absurd rfl (hstore d buff)
  | ffs_aliases_store buf => exact sameLists_ffs_aliases_store buf s
  | enable_store d enabled a => exact sameLists_enable_store d enabled a s
  | remote_wakeup_store d enable => exact absurd rfl (hwakeup d enable)
  | rndis_transports_store buf => exact ⟨rfl, fun _ => rfl, fun _ => rfl⟩
  | functionfs_ready_callback a => exact sameLists_ready a s
  | functionfs_closed_callback => exact sameLists_closed s
  | video_ready_callback => exact sameLists_video_ready s
  | video_closed_callback => exact sameLists_video_closed s

end Effects

end Fixed.AndroidDevice
