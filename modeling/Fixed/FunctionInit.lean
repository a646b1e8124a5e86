import Fixed.ObjectLedger
import Fixed.Runs
import Mathlib.Order.Interval.Finset.Nat
import Mathlib.Logic.Function.Basic

/-!
`android_init_functions` and `android_cleanup_functions` of `android.c`. The clean-up
destroys the device of every function whose `dev` is not null and leaves `dev` as it
is, and a failed initialisation cleans all functions up, also those it has not reached.
So no device is destroyed twice, and nothing leaks, exactly in the runs whose failed
initialisations reach as many functions as the one before, or one less when its name
was allocated, and whose clean-ups follow a successful initialisation. The loop that
takes back the attribute files of a function whose `k`th file fails starts at that file,
asks for it twice, and leaves the first two.
-/
namespace Fixed.FunctionInit

open ObjectLedger Runs

structure UsbFunction where
  has_init : Bool
  has_cleanup : Bool
  /-- The number of attributes before the null that ends them. -/
  attributes : ℕ

/-- What one function is answered while it is initialised; 0 is success. -/
structure Answer where
  kasprintf : Bool
  device_create : ℤ
  init : ℤ
  device_create_file : ℕ → ℤ

def ENOMEM : ℤ := 12

structure Gadget where
  dev : ℕ → Ptr
  dev_name : ℕ → Ptr
  devices : Ledger
  names : Ledger
  /-- The functions past their `init` and not cleaned up. -/
  ready : Finset ℕ
  /-- The calls of `cleanup` for other functions. -/
  unready : ℕ
  /-- The attribute files of each device. -/
  files : Ptr → Finset ℕ
  /-- The removals of files that the device does not have. -/
  absent : ℕ
  /-- The removals of files from a device that is destroyed. -/
  late : ℕ

namespace Gadget

def device_destroy (g : Gadget) (dev : Ptr) : Gadget :=
  { g with devices := g.devices.release dev, files := Function.update g.files dev ∅ }

def device_create_file (g : Gadget) (dev : Ptr) (attr : ℕ) : Gadget :=
  { g with files := Function.update g.files dev (insert attr (g.files dev)) }

def device_remove_file (g : Gadget) (dev : Ptr) (attr : ℕ) : Gadget :=
  match dev with
  | .obj n =>
    if n ∈ g.devices.live then
      if attr ∈ g.files dev then
        { g with files := Function.update g.files dev ((g.files dev).erase attr) }
      else { g with absent := g.absent + 1 }
    else { g with late := g.late + 1 }
  | _ => { g with late := g.late + 1 }

def cleanup (g : Gadget) (f : UsbFunction) (i : ℕ) : Gadget :=
  if f.has_cleanup ∧ i ∉ g.ready then { g with unready := g.unready + 1 }
  else { g with ready := g.ready.erase i }

end Gadget

open Gadget

/-- `while ((attr = *attrs++) && !err) err = device_create_file(f->dev, attr)` with `r`
attributes left from `attrs` on. -/
def create_files (dev : Ptr) (a : Answer) : ℕ → ℕ → ℤ → Gadget → Gadget × ℤ × ℕ
  | 0, attrs, err, g => (g, err, attrs + 1)
  | r + 1, attrs, err, g =>
    if err ≠ 0 then (g, err, attrs + 1)
    else if a.device_create_file attrs ≠ 0 then
      create_files dev a r (attrs + 1) (a.device_create_file attrs) g
    else create_files dev a r (attrs + 1) 0 (g.device_create_file dev attrs)

/-- `for (; attrs != f->attributes; attr = *(attrs--)) device_remove_file(f->dev, attr)` -/
def remove_files (dev : Ptr) : ℕ → ℕ → Gadget → Gadget
  | 0, _, g => g
  | attrs + 1, attr, g => remove_files dev attrs (attrs + 1) (g.device_remove_file dev attr)

def err_create (i : ℕ) (g : Gadget) : Gadget :=
  { g with dev := Function.update g.dev i .null, names := g.names.release (g.dev_name i) }

def err_init (i : ℕ) (g : Gadget) : Gadget := err_create i (g.device_destroy (g.dev i))

def err_attrs (f : UsbFunction) (i attrs : ℕ) (g : Gadget) : Gadget :=
  let g := remove_files (g.dev i) (attrs - 2) (attrs - 2) g
  err_init i (g.cleanup f i)

/-- The loop of `android_init_functions` for function `i`, with the error labels up to
`err_create`. -/
def init_function (f : UsbFunction) (a : Answer) (i : ℕ) (g : Gadget) : Gadget × ℤ :=
  if a.kasprintf = false then
    ({ g with dev_name := Function.update g.dev_name i .null }, -ENOMEM)
  else
    let g := { g with
      dev_name := Function.update g.dev_name i (.obj g.names.made)
      names := g.names.alloc }
    if a.device_create ≠ 0 then (err_create i g, a.device_create)
    else
      let g := { g with
        dev := Function.update g.dev i (.obj g.devices.made)
        devices := g.devices.alloc }
      if f.has_init ∧ a.init ≠ 0 then (err_init i g, a.init)
      else
        let g := { g with ready := insert i g.ready }
        match create_files (g.dev i) a f.attributes 0 0 g with
        | (g, err, attrs) => if err ≠ 0 then (err_attrs f i attrs g, err) else (g, 0)

def cleanup_function (f : UsbFunction) (i : ℕ) (g : Gadget) : Gadget :=
  if g.dev i = .null then g
  else
    let g := g.device_destroy (g.dev i)
    let g := { g with names := g.names.release (g.dev_name i) }
    (List.range f.attributes).foldl (fun g attr => g.device_remove_file (g.dev i) attr)
      (g.cleanup f i)

def android_cleanup_functions : List UsbFunction → ℕ → Gadget → Gadget
  | [], _, g => g
  | f :: fs, i, g => android_cleanup_functions fs (i + 1) (cleanup_function f i g)

def init_functions (a : ℕ → Answer) : List UsbFunction → ℕ → Gadget → Gadget × ℤ
  | [], _, g => (g, 0)
  | f :: fs, i, g =>
    match init_function f (a i) i g with
    | (g, err) => if err ≠ 0 then (g, err) else init_functions a fs (i + 1) g

def android_init_functions (functions : List UsbFunction) (a : ℕ → Answer) (g : Gadget) :
    Gadget × ℤ :=
  match init_functions a functions 0 g with
  | (g, err) => if err ≠ 0 then (android_cleanup_functions functions 0 g, err) else (g, 0)

def Fails (f : UsbFunction) (a : Answer) : Prop :=
  a.kasprintf = false ∨ a.device_create ≠ 0 ∨ f.has_init = true ∧ a.init ≠ 0 ∨
    ∃ attr < f.attributes, a.device_create_file attr ≠ 0

instance (f : UsbFunction) (a : Answer) : Decidable (Fails f a) :=
  inferInstanceAs (Decidable (a.kasprintf = false ∨ a.device_create ≠ 0 ∨
    f.has_init = true ∧ a.init ≠ 0 ∨ ∃ attr < f.attributes, a.device_create_file attr ≠ 0))

def reaches (a : ℕ → Answer) : List UsbFunction → ℕ → ℕ
  | [], _ => 0
  | f :: fs, i => if Fails f (a i) then 0 else reaches a fs (i + 1) + 1

structure Session where
  gadget : Gadget
  initialised : Bool
  /-- The number of functions the last initialisation reached. -/
  reached : ℕ

inductive Event
  | init (a : ℕ → Answer)
  | cleanup

/-- Functions are initialised for the first device only, so not while they already are;
every device that goes cleans them up. -/
def step (functions : List UsbFunction) (s : Session) : Event → Option Session
  | .init a =>
    if s.initialised then none
    else
      match android_init_functions functions a s.gadget with
      | (g, err) => some ⟨g, err = 0, reaches a functions 0⟩
  | .cleanup => some ⟨android_cleanup_functions functions 0 s.gadget, false, s.reached⟩

def initial : Session where
  gadget := {
    dev _ := .null
    dev_name _ := .null
    devices := .empty
    names := .empty
    ready := ∅
    unready := 0
    files _ := ∅
    absent := 0
    late := 0 }
  initialised := false
  reached := 0

structure Sound (g : Gadget) : Prop where
  devices : g.devices.faults = 0
  names : g.names.faults = 0
  cleanups : g.unready = 0

/-- While the functions are initialised each of the `n` has a device of its own, a name
and an `init` to be cleaned up; else there is none of these. -/
structure Balanced (n : ℕ) (s : Session) : Prop where
  devices : s.gadget.devices.live.card = if s.initialised then n else 0
  names : s.gadget.names.live.card = if s.initialised then n else 0
  ready : s.gadget.ready = if s.initialised then Finset.range n else ∅
  own : s.initialised = true → ∀ i < n, ∃ d ∈ s.gadget.devices.live,
    s.gadget.dev i = .obj d ∧ ∀ j < n, s.gadget.dev j = .obj d → j = i

/-- A failed initialisation reaches as many functions as the one before, or one less
when a name was allocated; a clean-up follows a successful one or finds nothing. -/
def Covers (functions : List UsbFunction) (s : Session) (e : Event) (_ : Session) : Prop :=
  match e with
  | .init a =>
    let k := reaches a functions 0
    k < functions.length → s.reached ≤ k ∨ s.reached = k + 1 ∧ (a k).kasprintf = true
  | .cleanup => s.initialised = true ∨ s.reached = 0

structure SameFunctions (g g' : Gadget) : Prop where
  dev : g'.dev = g.dev
  dev_name : g'.dev_name = g.dev_name
  devices : g'.devices = g.devices
  names : g'.names = g.names
  ready : g'.ready = g.ready
  unready : g'.unready = g.unready

/-- The functions from `i` up to `k` have the devices from `d + i` and the names from
`m + i` on, these are all there are, and they are ready. -/
structure Held (d m i k : ℕ) (g : Gadget) : Prop where
  dev : ∀ j, i ≤ j → j < k → g.dev j = .obj (d + j)
  dev_name : ∀ j, i ≤ j → j < k → g.dev_name j = .obj (m + j)
  devices : g.devices.live = Finset.Ico (d + i) (d + k)
  names : g.names.live = Finset.Ico (m + i) (m + k)
  ready : g.ready = Finset.Ico i k

structure Adding (d m : ℕ) (g₀ : Gadget) (i : ℕ) (g : Gadget) : Prop where
  held : Held d m 0 i g
  sound : Sound g
  devices_made : g.devices.made = d + i
  names_made : g.names.made = m + i
  rest : ∀ j, i ≤ j → g.dev j = g₀.dev j

structure Failed (d m : ℕ) (g₀ : Gadget) (k : ℕ) (a : Answer) (g : Gadget) : Prop where
  held : Held d m 0 k g
  sound : Sound g
  failed : g.dev k = if a.kasprintf then .null else g₀.dev k
  rest : ∀ j, k < j → g.dev j = g₀.dev j

def opened (i : ℕ) (g : Gadget) : Gadget :=
  { g with
    dev := Function.update g.dev i (.obj g.devices.made)
    dev_name := Function.update g.dev_name i (.obj g.names.made)
    devices := g.devices.alloc
    names := g.names.alloc }

section Loop

variable {d m i k : ℕ} {f : UsbFunction} {a : Answer} {g g' g₀ : Gadget}

theorem SameFunctions.refl (g : Gadget) : SameFunctions g g := ⟨rfl, rfl, rfl, rfl, rfl, rfl⟩

theorem SameFunctions.trans {g'' : Gadget} (h : SameFunctions g g') (h' : SameFunctions g' g'') :
    SameFunctions g g'' where
  dev := h'.dev.trans h.dev
  dev_name := h'.dev_name.trans h.dev_name
  devices := h'.devices.trans h.devices
  names := h'.names.trans h.names
  ready := h'.ready.trans h.ready
  unready := h'.unready.trans h.unready

theorem SameFunctions.held (h : SameFunctions g g') (hg : Held d m i k g) : Held d m i k g' := by
  obtain ⟨hdev, hname, hdevices, hnames, hready, -⟩ := h
  refine ⟨?_, ?_, ?_, ?_, ?_⟩
  · rw [hdev]
    exact hg.dev
  · rw [hname]
    exact hg.dev_name
  · rw [hdevices]
    exact hg.devices
  · rw [hnames]
    exact hg.names
  · rw [hready]
    exact hg.ready

theorem SameFunctions.sound (h : SameFunctions g g') (hg : Sound g) : Sound g' := by
  obtain ⟨-, -, hdevices, hnames, -, hunready⟩ := h
  refine ⟨?_, ?_, ?_⟩
  · rw [hdevices]
    exact hg.devices
  · rw [hnames]
    exact hg.names
  · rw [hunready]
    exact hg.cleanups

theorem device_remove_file_same (g : Gadget) (dev : Ptr) (attr : ℕ) :
    SameFunctions g (g.device_remove_file dev attr) := by
  unfold device_remove_file
  split
  · split
    · split
      · exact ⟨rfl, rfl, rfl, rfl, rfl, rfl⟩
      · exact ⟨rfl, rfl, rfl, rfl, rfl, rfl⟩
    · exact ⟨rfl, rfl, rfl, rfl, rfl, rfl⟩
  · exact ⟨rfl, rfl, rfl, rfl, rfl, rfl⟩

theorem remove_files_same (dev : Ptr) (attrs attr : ℕ) (g : Gadget) :
    SameFunctions g (remove_files dev attrs attr g) := by
  induction attrs generalizing attr g with
  | zero => exact .refl g
  | succ attrs ih => exact (device_remove_file_same g dev attr).trans (ih _ _)

theorem remove_all_same (i : ℕ) (attrs : List ℕ) (g : Gadget) :
    SameFunctions g (attrs.foldl (fun g attr => g.device_remove_file (g.dev i) attr) g) := by
  induction attrs generalizing g with
  | nil => exact .refl g
  | cons attr attrs ih => exact (device_remove_file_same g (g.dev i) attr).trans (ih _)

theorem create_files_same (dev : Ptr) (a : Answer) (r attrs : ℕ) (err : ℤ) (g : Gadget) :
    SameFunctions g (create_files dev a r attrs err g).1 := by
  induction r generalizing attrs err g with
  | zero => exact .refl g
  | succ r ih =>
    unfold create_files
    split
    · exact .refl g
    · split
      · exact ih _ _ g
      · have hstep : SameFunctions g (g.device_create_file dev attrs) :=
          ⟨rfl, rfl, rfl, rfl, rfl, rfl⟩
        exact hstep.trans (ih _ _ _)

theorem create_files_err (dev : Ptr) (a : Answer) (r attrs : ℕ) (err : ℤ) (g : Gadget) :
    (create_files dev a r attrs err g).2.1 = 0 ↔
      err = 0 ∧ ∀ attr, attrs ≤ attr → attr < attrs + r → a.device_create_file attr = 0 := by
  induction r generalizing attrs err g with
  | zero =>
    constructor
    · intro h
      exact ⟨h, fun attr hle hlt => absurd hlt (by omega)⟩
    · exact fun h => h.1
  | succ r ih =>
    unfold create_files
    split
    · next herr => exact ⟨fun h => absurd h herr, fun h => absurd h.1 herr⟩
    · next herr =>
      have herr : err = 0 := not_not.mp herr
      split
      · next hfile =>
        constructor
        · intro h
          exact absurd ((ih _ _ _).mp h).1 hfile
        · intro h
          exact absurd (h.2 attrs (Nat.le_refl _) (by omega)) hfile
      · next hfile =>
        rw [ih]
        constructor
        · rintro ⟨-, hall⟩
          refine ⟨herr, fun attr hle hlt => ?_⟩
          rcases Nat.eq_or_lt_of_le hle with rfl | hle
          · exact not_not.mp hfile
          · exact hall attr hle (by omega)
        · rintro ⟨-, hall⟩
          exact ⟨rfl, fun attr hle hlt => hall attr (by omega) (by omega)⟩

theorem Held.update_dev {p : Ptr} (hg : Held d m 0 i g) :
    Held d m 0 i { g with dev := Function.update g.dev i p } := by
  obtain ⟨hdev, hname, hdevices, hnames, hready⟩ := hg
  refine ⟨fun j hle hlt => ?_, hname, hdevices, hnames, hready⟩
  exact (Function.update_of_ne (Nat.ne_of_lt hlt) _ _).trans (hdev j hle hlt)

theorem Held.update_dev_name {p : Ptr} (hg : Held d m 0 i g) :
    Held d m 0 i { g with dev_name := Function.update g.dev_name i p } := by
  obtain ⟨hdev, hname, hdevices, hnames, hready⟩ := hg
  refine ⟨hdev, fun j hle hlt => ?_, hdevices, hnames, hready⟩
  exact (Function.update_of_ne (Nat.ne_of_lt hlt) _ _).trans (hname j hle hlt)

/-- Out of memory for the name. -/
theorem Adding.unnamed (hg : Adding d m g₀ i g) (ha : a.kasprintf = false) :
    Failed d m g₀ i a { g with dev_name := Function.update g.dev_name i .null } := by
  obtain ⟨hheld, ⟨hdevices, hnames, hcleanups⟩, -, -, hrest⟩ := hg
  refine ⟨hheld.update_dev_name, ⟨hdevices, hnames, hcleanups⟩, ?_, ?_⟩
  · rw [ha]
    exact hrest i (Nat.le_refl i)
  · intro j hlt
    exact hrest j (Nat.le_of_lt hlt)

/-- The device could not be created. -/
theorem Adding.uncreated (hg : Adding d m g₀ i g) (ha : a.kasprintf = true) :
    Failed d m g₀ i a (err_create i { g with
      dev_name := Function.update g.dev_name i (.obj g.names.made)
      names := g.names.alloc }) := by
  obtain ⟨hheld, ⟨hdevices, hnames, hcleanups⟩, -, -, hrest⟩ := hg
  obtain ⟨hdev, hname, hdlive, hnlive, hready⟩ :=
    (hheld.update_dev_name (p := .obj g.names.made)).update_dev (p := .null)
  have hfree : (Function.update g.dev_name i (.obj g.names.made)) i = .obj g.names.made :=
    Function.update_self _ _ _
  refine ⟨⟨hdev, hname, hdlive, ?_, hready⟩, ⟨hdevices, ?_, hcleanups⟩, ?_, ?_⟩
  · simp only [err_create, hfree]
    rw [Ledger.release_alloc_live]
    exact hnlive
  · simp only [err_create, hfree]
    rw [Ledger.release_alloc_faults]
    exact hnames
  · simp [err_create, ha]
  · intro j hlt
    rw [err_create]
    dsimp only
    rw [Function.update_of_ne (Nat.ne_of_gt hlt)]
    exact hrest j (Nat.le_of_lt hlt)

/-- The device was created and is destroyed again. -/
theorem Adding.destroyed (hg : Adding d m g₀ i g) (ha : a.kasprintf = true)
    (hsame : SameFunctions (opened i g) g') : Failed d m g₀ i a (err_init i g') := by
  obtain ⟨hheld, ⟨hdevices, hnames, hcleanups⟩, -, -, hrest⟩ := hg
  obtain ⟨hdev, hname, hdlive, hnlive, hready⟩ := hheld
  obtain ⟨edev, ename, edevices, enames, eready, eunready⟩ := hsame
  have hobj : g'.dev i = .obj g.devices.made := by
    rw [edev]
    exact Function.update_self _ _ _
  have hfree : g'.dev_name i = .obj g.names.made := by
    rw [ename]
    exact Function.update_self _ _ _
  have hothers : ∀ j, j ≠ i → (err_init i g').dev j = g.dev j := by
    intro j hne
    have hnull : (err_init i g').dev j = g'.dev j := Function.update_of_ne hne _ _
    rw [hnull, edev]
    exact Function.update_of_ne hne _ _
  refine ⟨⟨?_, ?_, ?_, ?_, ?_⟩, ⟨?_, ?_, ?_⟩, ?_, ?_⟩
  · intro j hle hlt
    rw [hothers j (Nat.ne_of_lt hlt)]
    exact hdev j hle hlt
  · intro j hle hlt
    have hkept : (err_init i g').dev_name j = g.dev_name j := by
      rw [show (err_init i g').dev_name = g'.dev_name from rfl, ename]
      exact Function.update_of_ne (Nat.ne_of_lt hlt) _ _
    rw [hkept]
    exact hname j hle hlt
  · rw [show (err_init i g').devices = g'.devices.release (g'.dev i) from rfl, hobj, edevices]
    exact (Ledger.release_alloc_live g.devices).trans hdlive
  · rw [show (err_init i g').names = g'.names.release (g'.dev_name i) from rfl, hfree, enames]
    exact (Ledger.release_alloc_live g.names).trans hnlive
  · rw [show (err_init i g').ready = g'.ready from rfl, eready]
    exact hready
  · rw [show (err_init i g').devices = g'.devices.release (g'.dev i) from rfl, hobj, edevices]
    exact (Ledger.release_alloc_faults g.devices).trans hdevices
  · rw [show (err_init i g').names = g'.names.release (g'.dev_name i) from rfl, hfree, enames]
    exact (Ledger.release_alloc_faults g.names).trans hnames
  · rw [show (err_init i g').unready = g'.unready from rfl, eunready]
    exact hcleanups
  · rw [ha, if_pos rfl]
    exact Function.update_self _ _ _
  · intro j hlt
    rw [hothers j (Nat.ne_of_gt hlt)]
    exact hrest j (Nat.le_of_lt hlt)

/-- The function is initialised. -/
theorem Adding.passed (hg : Adding d m g₀ i g)
    (hsame : SameFunctions { opened i g with ready := insert i g.ready } g') :
    Adding d m g₀ (i + 1) g' := by
  obtain ⟨hheld, ⟨hdevices, hnames, hcleanups⟩, hdmade, hnmade, hrest⟩ := hg
  obtain ⟨hdev, hname, hdlive, hnlive, hready⟩ := hheld
  obtain ⟨edev, ename, edevices, enames, eready, eunready⟩ := hsame
  refine ⟨⟨?_, ?_, ?_, ?_, ?_⟩, ⟨?_, ?_, ?_⟩, ?_, ?_, ?_⟩
  · intro j hle hlt
    rw [edev]
    rcases Nat.lt_succ_iff_lt_or_eq.mp hlt with hlt | rfl
    · exact (Function.update_of_ne (Nat.ne_of_lt hlt) _ _).trans (hdev j hle hlt)
    · rw [← hdmade]
      exact Function.update_self _ _ _
  · intro j hle hlt
    rw [ename]
    rcases Nat.lt_succ_iff_lt_or_eq.mp hlt with hlt | rfl
    · exact (Function.update_of_ne (Nat.ne_of_lt hlt) _ _).trans (hname j hle hlt)
    · rw [← hnmade]
      exact Function.update_self _ _ _
  · rw [edevices]
    simp only [opened, Ledger.alloc_live, hdlive, hdmade]
    ext x
    simp only [Finset.mem_insert, Finset.mem_Ico]
    omega
  · rw [enames]
    simp only [opened, Ledger.alloc_live, hnlive, hnmade]
    ext x
    simp only [Finset.mem_insert, Finset.mem_Ico]
    omega
  · rw [eready]
    dsimp only
    rw [hready]
    ext x
    simp only [Finset.mem_insert, Finset.mem_Ico]
    omega
  · rw [edevices]
    exact hdevices
  · rw [enames]
    exact hnames
  · rw [eunready]
    exact hcleanups
  · rw [edevices]
    exact congrArg (· + 1) hdmade
  · rw [enames]
    exact congrArg (· + 1) hnmade
  · intro j hle
    rw [edev]
    exact (Function.update_of_ne (by omega) _ _).trans (hrest j (by omega))

theorem create_files_ok (dev : Ptr) (f : UsbFunction) (a : Answer) (g : Gadget) :
    (create_files dev a f.attributes 0 0 g).2.1 = 0 ↔
      ¬ ∃ attr < f.attributes, a.device_create_file attr ≠ 0 := by
  rw [create_files_err]
  constructor
  · rintro ⟨-, hall⟩ ⟨attr, hlt, hne⟩
    exact hne (hall attr (Nat.zero_le _) (by omega))
  · intro hno
    refine ⟨rfl, fun attr _ hlt => ?_⟩
    by_contra hne
    exact hno ⟨attr, by omega, hne⟩

/-- A clean-up of a ready function takes it back. -/
theorem cleanup_ready (hi : i ∉ g.ready) (h : g'.ready = insert i g.ready) :
    g'.cleanup f i = { g' with ready := g.ready } := by
  have hmem : i ∈ g'.ready := by
    rw [h]
    exact Finset.mem_insert_self _ _
  rw [Gadget.cleanup, if_neg (fun hand => hand.2 hmem), h, Finset.erase_insert hi]

/-- One round of the loop. -/
theorem init_function_spec (hg : Adding d m g₀ i g) :
    (Fails f a ∧ (init_function f a i g).2 ≠ 0 ∧
      Failed d m g₀ i a (init_function f a i g).1) ∨
    (¬ Fails f a ∧ (init_function f a i g).2 = 0 ∧
      Adding d m g₀ (i + 1) (init_function f a i g).1) := by
  unfold init_function
  by_cases hname : a.kasprintf = false
  · rw [if_pos hname]
    have herr : -ENOMEM ≠ 0 := by decide
    exact Or.inl ⟨Or.inl hname, herr, hg.unnamed hname⟩
  have htrue : a.kasprintf = true := eq_true_of_ne_false hname
  rw [if_neg hname]
  by_cases hdevice : a.device_create ≠ 0
  · dsimp only
    rw [if_pos hdevice]
    exact Or.inl ⟨Or.inr (Or.inl hdevice), hdevice, hg.uncreated htrue⟩
  dsimp only
  rw [if_neg hdevice]
  by_cases hinit : f.has_init = true ∧ a.init ≠ 0
  · rw [if_pos hinit]
    exact Or.inl ⟨Or.inr (Or.inr (Or.inl hinit)), hinit.2, hg.destroyed htrue (.refl _)⟩
  rw [if_neg hinit]
  have hsame := create_files_same ((opened i g).dev i) a f.attributes 0 0
    { opened i g with ready := insert i g.ready }
  have hok := create_files_ok ((opened i g).dev i) f a
    { opened i g with ready := insert i g.ready }
  dsimp only [opened] at hsame hok ⊢
  generalize create_files _ a f.attributes 0 0 _ = r at hsame hok ⊢
  obtain ⟨u, err, attrs⟩ := r
  dsimp only at hsame hok ⊢
  by_cases hfile : ∃ attr < f.attributes, a.device_create_file attr ≠ 0
  · have herr : err ≠ 0 := fun h => hok.mp h hfile
    rw [if_pos herr]
    refine Or.inl ⟨Or.inr (Or.inr (Or.inr hfile)), herr, hg.destroyed htrue ?_⟩
    have hall := hsame.trans (remove_files_same (u.dev i) (attrs - 2) (attrs - 2) u)
    have hnot : i ∉ g.ready := by
      rw [hg.held.ready, Finset.mem_Ico]
      omega
    rw [cleanup_ready hnot hall.ready]
    exact ⟨hall.dev, hall.dev_name, hall.devices, hall.names, rfl, hall.unready⟩
  · have herr : err = 0 := hok.mpr hfile
    have hpass : ¬ Fails f a := by
      rintro (h | h | h | h)
      · exact hname h
      · exact hdevice h
      · exact hinit h
      · exact hfile h
    rw [if_neg (not_not.mpr herr)]
    exact Or.inr ⟨hpass, rfl, hg.passed hsame⟩

/-- The whole loop. -/
theorem init_functions_spec {as : ℕ → Answer} {fs : List UsbFunction}
    (hg : Adding d m g₀ i g) :
    (reaches as fs i = fs.length ∧ (init_functions as fs i g).2 = 0 ∧
      Adding d m g₀ (i + fs.length) (init_functions as fs i g).1) ∨
    (reaches as fs i < fs.length ∧ (init_functions as fs i g).2 ≠ 0 ∧
      Failed d m g₀ (i + reaches as fs i) (as (i + reaches as fs i))
        (init_functions as fs i g).1) := by
  induction fs generalizing i g with
  | nil => exact Or.inl ⟨rfl, rfl, hg⟩
  | cons f fs ih =>
    have hspec := @init_function_spec d m i f (as i) g g₀ hg
    rw [reaches, init_functions]
    generalize init_function f (as i) i g = r at hspec ⊢
    obtain ⟨u, err⟩ := r
    dsimp only at hspec ⊢
    rcases hspec with ⟨hfail, herr, hfailed⟩ | ⟨hfail, herr, hpassed⟩
    · rw [if_pos hfail, if_pos herr]
      exact Or.inr ⟨Nat.succ_pos _, herr, hfailed⟩
    · rw [if_neg hfail, if_neg (not_not.mpr herr)]
      rcases ih hpassed with ⟨hall, hzero, hadd⟩ | ⟨hlt, hne, hfailed⟩
      · refine Or.inl ⟨congrArg (· + 1) hall, hzero, ?_⟩
        rw [List.length_cons, Nat.add_comm fs.length, ← Nat.add_assoc]
        exact hadd
      · refine Or.inr ⟨Nat.succ_lt_succ hlt, hne, ?_⟩
        rw [Nat.add_comm (reaches as fs (i + 1)), ← Nat.add_assoc]
        exact hfailed

end Loop

section Cleanup

variable {d m i k : ℕ} {f : UsbFunction} {fs : List UsbFunction} {g : Gadget}

theorem cleanup_keeps (g : Gadget) (f : UsbFunction) (i : ℕ) :
    (g.cleanup f i).dev = g.dev ∧ (g.cleanup f i).dev_name = g.dev_name ∧
      (g.cleanup f i).devices = g.devices ∧ (g.cleanup f i).names = g.names := by
  unfold Gadget.cleanup
  split
  · exact ⟨rfl, rfl, rfl, rfl⟩
  · exact ⟨rfl, rfl, rfl, rfl⟩

/-- A function without a device is left alone. -/
theorem cleanup_function_null (h : g.dev i = .null) : cleanup_function f i g = g := if_pos h

/-- What the clean-up of a function does, its attribute files apart. -/
theorem cleanup_function_same (h : g.dev i ≠ .null) :
    SameFunctions ({ g.device_destroy (g.dev i) with
        names := g.names.release (g.dev_name i) }.cleanup f i) (cleanup_function f i g) := by
  rw [cleanup_function, if_neg h]
  exact remove_all_same i _ _

theorem cleanup_function_held (hg : Held d m i k g) (hs : Sound g) (hlt : i < k) :
    Held d m (i + 1) k (cleanup_function f i g) ∧ Sound (cleanup_function f i g) ∧
      (cleanup_function f i g).dev = g.dev ∧
      (cleanup_function f i g).devices.made = g.devices.made := by
  obtain ⟨hdev, hname, hdlive, hnlive, hready⟩ := hg
  obtain ⟨hdevices, hnames, hcleanups⟩ := hs
  have hobj : g.dev i = .obj (d + i) := hdev i (Nat.le_refl i) hlt
  have hfree : g.dev_name i = .obj (m + i) := hname i (Nat.le_refl i) hlt
  have hdmem : d + i ∈ g.devices.live := by
    rw [hdlive, Finset.mem_Ico]
    omega
  have hnmem : m + i ∈ g.names.live := by
    rw [hnlive, Finset.mem_Ico]
    omega
  have hrmem : i ∈ g.ready := by
    rw [hready, Finset.mem_Ico]
    omega
  have hsame := @cleanup_function_same i f g (by rw [hobj]; simp)
  rw [Gadget.cleanup, if_neg (fun hand => hand.2 hrmem)] at hsame
  refine ⟨hsame.held ⟨?_, ?_, ?_, ?_, ?_⟩, hsame.sound ⟨?_, ?_, hcleanups⟩, hsame.dev, ?_⟩
  · exact fun j hle hlt => hdev j (by omega) hlt
  · exact fun j hle hlt => hname j (by omega) hlt
  · dsimp only [Gadget.device_destroy]
    rw [hobj, Ledger.release_live hdmem, hdlive]
    ext x
    simp only [Finset.mem_erase, Finset.mem_Ico]
    omega
  · dsimp only [Gadget.device_destroy]
    rw [hfree, Ledger.release_live hnmem, hnlive]
    ext x
    simp only [Finset.mem_erase, Finset.mem_Ico]
    omega
  · dsimp only [Gadget.device_destroy]
    rw [hready]
    ext x
    simp only [Finset.mem_erase, Finset.mem_Ico]
    omega
  · dsimp only [Gadget.device_destroy]
    rw [hobj, Ledger.release_faults hdmem]
    exact hdevices
  · dsimp only [Gadget.device_destroy]
    rw [hfree, Ledger.release_faults hnmem]
    exact hnames
  · rw [hsame.devices]
    dsimp only [Gadget.device_destroy]
    rw [hobj, Ledger.release, if_pos hdmem]

/-- Without devices there is nothing to clean up. -/
theorem android_cleanup_null (h : ∀ j, i ≤ j → j < i + fs.length → g.dev j = .null) :
    android_cleanup_functions fs i g = g := by
  induction fs generalizing i with
  | nil => rfl
  | cons f fs ih =>
    rw [List.length_cons] at h
    have hnull := h i (Nat.le_refl i) (by omega)
    rw [android_cleanup_functions, cleanup_function_null hnull]
    exact ih fun j hle hlt => h j (by omega) (by omega)

/-- The clean-up of functions that are all ready or without a device. -/
theorem android_cleanup_held (hg : Held d m i k g) (hs : Sound g) (hle : i ≤ k)
    (hk : k ≤ i + fs.length) (hnull : ∀ j, k ≤ j → j < i + fs.length → g.dev j = .null) :
    Held d m k k (android_cleanup_functions fs i g) ∧
      Sound (android_cleanup_functions fs i g) ∧
      (android_cleanup_functions fs i g).dev = g.dev ∧
      (android_cleanup_functions fs i g).devices.made = g.devices.made := by
  induction fs generalizing i g with
  | nil =>
    obtain rfl : i = k := Nat.le_antisymm hle hk
    exact ⟨hg, hs, rfl, rfl⟩
  | cons f fs ih =>
    rcases Nat.eq_or_lt_of_le hle with rfl | hlt
    · rw [android_cleanup_null hnull]
      exact ⟨hg, hs, rfl, rfl⟩
    · rw [List.length_cons] at hk hnull
      obtain ⟨hheld, hsound, hdev, hmade⟩ := @cleanup_function_held d m i k f g hg hs hlt
      have hnull' : ∀ j, k ≤ j → j < i + 1 + fs.length →
          (cleanup_function f i g).dev j = .null := by
        intro j hle hlt
        rw [hdev]
        exact hnull j hle (by omega)
      obtain ⟨hheld', hsound', hdev', hmade'⟩ := ih hheld hsound hlt (by omega) hnull'
      exact ⟨hheld', hsound', hdev'.trans hdev, hmade'.trans hmade⟩

/-- A clean-up gives no function a device. -/
theorem cleanup_function_frame (f : UsbFunction) (i : ℕ) (g : Gadget) :
    (cleanup_function f i g).dev = g.dev ∧
      (cleanup_function f i g).devices.live ⊆ g.devices.live ∧
      g.devices.faults ≤ (cleanup_function f i g).devices.faults := by
  by_cases h : g.dev i = .null
  · rw [cleanup_function_null h]
    exact ⟨rfl, subset_rfl, Nat.le_refl _⟩
  · have hsame := @cleanup_function_same i f g h
    obtain ⟨hdev, -, hdevices, -⟩ := cleanup_keeps
      { g.device_destroy (g.dev i) with names := g.names.release (g.dev_name i) } f i
    rw [hsame.dev, hsame.devices, hdev, hdevices]
    exact ⟨rfl, Ledger.release_subset g.devices (g.dev i),
      Ledger.release_faults_le g.devices (g.dev i)⟩

theorem android_cleanup_faults_le (fs : List UsbFunction) (i : ℕ) (g : Gadget) :
    g.devices.faults ≤ (android_cleanup_functions fs i g).devices.faults := by
  induction fs generalizing i g with
  | nil => exact Nat.le_refl _
  | cons f fs ih => exact (cleanup_function_frame f i g).2.2.trans (ih _ _)

/-- Cleaning up a device that is gone destroys it twice. -/
theorem android_cleanup_faults {j o : ℕ} (hle : i ≤ j) (hlt : j < i + fs.length)
    (hobj : g.dev j = .obj o) (ho : o ∉ g.devices.live) :
    g.devices.faults < (android_cleanup_functions fs i g).devices.faults := by
  induction fs generalizing i g with
  | nil =>
    rw [List.length_nil] at hlt
    omega
  | cons f fs ih =>
    rw [List.length_cons] at hlt
    obtain ⟨hdev, hlive, hfaults⟩ := cleanup_function_frame f i g
    rcases Nat.eq_or_lt_of_le hle with rfl | hle
    · have hsame := @cleanup_function_same i f g (by rw [hobj]; simp)
      obtain ⟨-, -, hdevices, -⟩ := cleanup_keeps
        { g.device_destroy (g.dev i) with names := g.names.release (g.dev_name i) } f i
      have hagain : (cleanup_function f i g).devices.faults = g.devices.faults + 1 := by
        rw [hsame.devices, hdevices]
        dsimp only [Gadget.device_destroy]
        rw [hobj, Ledger.release_gone ho]
      have hrest := android_cleanup_faults_le fs (i + 1) (cleanup_function f i g)
      rw [android_cleanup_functions]
      omega
    · have hgone : o ∉ (cleanup_function f i g).devices.live := fun hmem => ho (hlive hmem)
      have hrest := @ih (i + 1) (cleanup_function f i g) hle (by omega) (by rw [hdev, hobj]) hgone
      rw [android_cleanup_functions]
      omega

end Cleanup

/-- Every function that the last initialisation reached, and no other, has had a device;
all of them still have one while the functions are initialised, and else none. -/
structure Rests (n : ℕ) (s : Session) : Prop where
  sound : Sound s.gadget
  reached_le : s.reached ≤ n
  given : ∀ j < s.reached, ∃ o < s.gadget.devices.made, s.gadget.dev j = .obj o
  null : ∀ j, s.reached ≤ j → s.gadget.dev j = .null
  busy : s.initialised = true → s.reached = n ∧ ∃ d m, Held d m 0 n s.gadget
  idle : s.initialised = false → ∃ d m k, Held d m k k s.gadget

section Session

variable {n : ℕ} {functions : List UsbFunction} {s t : Session}

theorem Rests.balanced (h : Rests n s) : Balanced n s := by
  obtain ⟨-, -, -, -, hbusy, hidle⟩ := h
  cases hinit : s.initialised with
  | true =>
    obtain ⟨-, d, m, hdev, -, hdlive, hnlive, hready⟩ := hbusy hinit
    refine ⟨?_, ?_, ?_, ?_⟩
    · rw [hinit, if_pos rfl, hdlive, Nat.card_Ico]
      omega
    · rw [hinit, if_pos rfl, hnlive, Nat.card_Ico]
      omega
    · rw [hinit, if_pos rfl, hready, Finset.range_eq_Ico]
    · intro _ i hi
      refine ⟨d + i, ?_, hdev i (Nat.zero_le i) hi, ?_⟩
      · rw [hdlive, Finset.mem_Ico]
        omega
      · intro j hj hsame
        rw [hdev j (Nat.zero_le j) hj, Ptr.obj.injEq] at hsame
        omega
  | false =>
    obtain ⟨d, m, k, -, -, hdlive, hnlive, hready⟩ := hidle hinit
    refine ⟨?_, ?_, ?_, ?_⟩
    · rw [hinit, hdlive, Finset.Ico_self]
      rfl
    · rw [hinit, hnlive, Finset.Ico_self]
      rfl
    · rw [hinit, hready, Finset.Ico_self]
      rfl
    · intro htrue
      rw [hinit] at htrue
      exact absurd htrue Bool.false_ne_true

/-- An initialisation begins with nothing live. -/
theorem Rests.adding (h : Rests n s) (hinit : s.initialised = false) :
    Adding s.gadget.devices.made s.gadget.names.made s.gadget 0 s.gadget := by
  obtain ⟨d, m, k, -, -, hdlive, hnlive, hready⟩ := h.idle hinit
  refine ⟨⟨?_, ?_, ?_, ?_, ?_⟩, h.sound, rfl, rfl, fun _ _ => rfl⟩
  · exact fun j _ hlt => absurd hlt (Nat.not_lt_zero j)
  · exact fun j _ hlt => absurd hlt (Nat.not_lt_zero j)
  · rw [hdlive, Finset.Ico_self, Finset.Ico_self]
  · rw [hnlive, Finset.Ico_self, Finset.Ico_self]
  · rw [hready, Finset.Ico_self, Finset.Ico_self]

/-- How an initialisation ends. -/
theorem step_init {as : ℕ → Answer} (hs : Rests functions.length s)
    (h : step functions s (.init as) = some t) :
    let k := reaches as functions 0
    let d := s.gadget.devices.made
    let m := s.gadget.names.made
    t.reached = k ∧
      ((k = functions.length ∧ t.initialised = true ∧
          Adding d m s.gadget functions.length t.gadget) ∨
        (k < functions.length ∧ t.initialised = false ∧
          ∃ u, t.gadget = android_cleanup_functions functions 0 u ∧
            Failed d m s.gadget k (as k) u)) := by
  intro k d m
  have hinit : s.initialised = false := by
    by_contra hne
    rw [step, if_pos (eq_true_of_ne_false hne)] at h
    exact absurd h (by simp)
  have hspec := @init_functions_spec d m 0 s.gadget s.gadget as functions (hs.adding hinit)
  rw [step, if_neg (by rw [hinit]; exact Bool.false_ne_true), android_init_functions] at h
  generalize init_functions as functions 0 s.gadget = r at hspec h
  obtain ⟨u, err⟩ := r
  dsimp only at hspec h
  rw [Nat.zero_add, Nat.zero_add] at hspec
  rcases hspec with ⟨hall, herr, hadd⟩ | ⟨hlt, herr, hfailed⟩
  · rw [if_neg (not_not.mpr herr)] at h
    obtain rfl := Option.some.inj h
    exact ⟨rfl, Or.inl ⟨hall, by simp, hadd⟩⟩
  · rw [if_pos herr] at h
    obtain rfl := Option.some.inj h
    exact ⟨rfl, Or.inr ⟨hlt, by simp [herr], u, rfl, hfailed⟩⟩

/-- After a success every function has a device of its own. -/
theorem rests_added {d m : ℕ} (hs : Rests n s) (hreached : t.reached = n)
    (hinit : t.initialised = true) (h : Adding d m s.gadget n t.gadget) : Rests n t := by
  refine ⟨h.sound, Nat.le_of_eq hreached, ?_, ?_, fun _ => ⟨hreached, d, m, h.held⟩, ?_⟩
  · intro j hlt
    rw [hreached] at hlt
    refine ⟨d + j, ?_, h.held.dev j (Nat.zero_le j) hlt⟩
    rw [h.devices_made]
    omega
  · intro j hle
    rw [hreached] at hle
    rw [h.rest j hle]
    exact hs.null j (hs.reached_le.trans hle)
  · intro hfalse
    rw [hinit] at hfalse
    exact absurd hfalse.symm Bool.false_ne_true

/-- After a failure whose clean-up finds no other device nothing is left. -/
theorem rests_failed {d m k : ℕ} {a : Answer} {u : Gadget} (hs : Rests functions.length s)
    (hreached : t.reached = k) (hk : k < functions.length) (hinit : t.initialised = false)
    (hgadget : t.gadget = android_cleanup_functions functions 0 u)
    (h : Failed d m s.gadget k a u)
    (hrep : s.reached ≤ k ∨ s.reached = k + 1 ∧ a.kasprintf = true) :
    Rests functions.length t := by
  obtain ⟨hheld, hsound, hfailed, hrest⟩ := h
  have hnull : ∀ j, k ≤ j → u.dev j = .null := by
    intro j hle
    rcases Nat.eq_or_lt_of_le hle with rfl | hlt
    · rw [hfailed]
      split
      · rfl
      · next hname =>
        rcases hrep with hle | ⟨-, htrue⟩
        · exact hs.null k hle
        · exact absurd htrue hname
    · rw [hrest j hlt]
      exact hs.null j (by omega)
  obtain ⟨hheld', hsound', hdev, hmade⟩ := @android_cleanup_held d m 0 k functions u hheld hsound
    (Nat.zero_le k) (by omega) (fun j hle _ => hnull j hle)
  rw [← hgadget] at hheld' hsound' hdev hmade
  refine ⟨hsound', by omega, ?_, ?_, ?_, fun _ => ⟨d, m, k, hheld'⟩⟩
  · intro j hlt
    rw [hreached] at hlt
    refine ⟨d + j, ?_, ?_⟩
    · rw [hmade]
      apply u.devices.lt_made
      rw [hheld.devices, Finset.mem_Ico]
      omega
    · rw [hdev]
      exact hheld.dev j (Nat.zero_le j) hlt
  · intro j hle
    rw [hreached] at hle
    rw [hdev]
    exact hnull j hle
  · intro htrue
    rw [hinit] at htrue
    exact absurd htrue Bool.false_ne_true

/-- Else the clean-up destroys a device that is gone. -/
theorem faults_failed {k m : ℕ} {a : Answer} {u : Gadget} (hs : Rests functions.length s)
    (hk : k < functions.length) (hgadget : t.gadget = android_cleanup_functions functions 0 u)
    (h : Failed s.gadget.devices.made m s.gadget k a u)
    (hrep : ¬ (s.reached ≤ k ∨ s.reached = k + 1 ∧ a.kasprintf = true)) :
    ¬ Sound t.gadget := by
  obtain ⟨hheld, -, hfailed, hrest⟩ := h
  rw [not_or] at hrep
  obtain ⟨hlt, hname⟩ := hrep
  -- the function that still points to a device of before
  have hstale : ∃ j < functions.length, ∃ o < s.gadget.devices.made, u.dev j = .obj o := by
    by_cases hone : s.reached = k + 1
    · obtain ⟨o, ho, hobj⟩ := hs.given k (by omega)
      refine ⟨k, hk, o, ho, ?_⟩
      rw [hfailed, if_neg (fun htrue => hname ⟨hone, htrue⟩)]
      exact hobj
    · obtain ⟨o, ho, hobj⟩ := hs.given (k + 1) (by omega)
      have hle := hs.reached_le
      refine ⟨k + 1, by omega, o, ho, ?_⟩
      rw [hrest (k + 1) (Nat.lt_succ_self k)]
      exact hobj
  obtain ⟨j, hj, o, ho, hobj⟩ := hstale
  have hgone : o ∉ u.devices.live := by
    rw [hheld.devices, Finset.mem_Ico]
    omega
  have hfault := @android_cleanup_faults 0 functions u j o (Nat.zero_le j) (by omega) hobj hgone
  intro hsound
  rw [hgadget] at hsound
  rw [hsound.devices] at hfault
  exact absurd hfault (Nat.not_lt_zero _)

/-- What one step does to the balance. -/
theorem rests_step {e : Event} (hs : Rests functions.length s) (h : step functions s e = some t) :
    Covers functions s e t ∧ Rests functions.length t ∧
        (Sound t.gadget ∧ Balanced functions.length t) ∨
      ¬ Covers functions s e t ∧ ¬ (Sound t.gadget ∧ Balanced functions.length t) := by
  have hfine : Rests functions.length t →
      Rests functions.length t ∧ Sound t.gadget ∧ Balanced functions.length t :=
    fun ht => ⟨ht, ht.sound, ht.balanced⟩
  cases e with
  | init as =>
    obtain ⟨hreached, hends⟩ := step_init hs h
    rcases hends with ⟨hall, hinit, hadd⟩ | ⟨hlt, hinit, u, hgadget, hfailed⟩
    · have hrep : Covers functions s (.init as) t := fun hlt => absurd hall (Nat.ne_of_lt hlt)
      exact Or.inl ⟨hrep, hfine (rests_added hs (hreached.trans hall) hinit hadd)⟩
    · by_cases hrep : s.reached ≤ reaches as functions 0 ∨
          s.reached = reaches as functions 0 + 1 ∧
            (as (reaches as functions 0)).kasprintf = true
      · have ht := rests_failed hs hreached hlt hinit hgadget hfailed hrep
        exact Or.inl ⟨fun _ => hrep, hfine ht⟩
      · refine Or.inr ⟨fun hall => hrep (hall hlt), fun hq => ?_⟩
        exact faults_failed hs hlt hgadget hfailed hrep hq.1
  | cleanup =>
    obtain rfl := Option.some.inj h
    by_cases hinit : s.initialised = true
    · obtain ⟨hreached, d, m, hheld⟩ := hs.busy hinit
      obtain ⟨hheld', hsound', hdev, hmade⟩ := @android_cleanup_held d m 0 functions.length
        functions s.gadget hheld hs.sound (Nat.zero_le _) (by omega) (fun j hle hlt => by omega)
      refine Or.inl ⟨Or.inl hinit, hfine ⟨hsound', hs.reached_le, ?_, ?_, ?_, ?_⟩⟩
      · intro j hlt
        dsimp only
        rw [hdev, hmade]
        exact hs.given j hlt
      · intro j hle
        dsimp only
        rw [hdev]
        exact hs.null j hle
      · exact fun htrue => absurd htrue Bool.false_ne_true
      · exact fun _ => ⟨d, m, functions.length, hheld'⟩
    · by_cases hzero : s.reached = 0
      · have hnull := @android_cleanup_null 0 functions s.gadget
          (fun j _ _ => hs.null j (by omega))
        refine Or.inl ⟨Or.inr hzero, hfine ?_⟩
        rw [hnull]
        exact ⟨hs.sound, hs.reached_le, hs.given, hs.null,
          fun htrue => absurd htrue Bool.false_ne_true,
          fun _ => hs.idle (eq_false_of_ne_true hinit)⟩
      · refine Or.inr ⟨fun hrep => hrep.elim hinit hzero, fun hq => ?_⟩
        obtain ⟨d, m, k, hheld⟩ := hs.idle (eq_false_of_ne_true hinit)
        obtain ⟨o, ho, hobj⟩ := hs.given 0 (by omega)
        have hle := hs.reached_le
        have hgone : o ∉ s.gadget.devices.live := by
          rw [hheld.devices, Finset.Ico_self]
          exact Finset.notMem_empty o
        have hfault := @android_cleanup_faults 0 functions s.gadget 0 o (Nat.le_refl 0) (by omega)
          hobj hgone
        have hnone := hq.1.devices
        dsimp only at hnone
        omega

/-- In a run no device is destroyed twice, no name freed twice, no function cleaned up
that is not ready, and after each step exactly the devices, names and ready functions
of an initialised gadget are left, exactly if every failed initialisation reaches as many
functions as the one before, or one less with its name allocated, and every clean-up
follows a successful one or finds nothing. -/
theorem inits_balanced (functions : List UsbFunction) (es : List Event) :
    AllSteps (step functions) (fun _ _ t => Sound t.gadget ∧ Balanced functions.length t)
        initial es ↔
      AllSteps (step functions) (Covers functions) initial es := by
  have hinitial : Rests functions.length initial := by
    refine ⟨⟨rfl, rfl, rfl⟩, Nat.zero_le _, ?_, fun _ _ => rfl, ?_, fun _ => ⟨0, 0, 0, ?_⟩⟩
    · exact fun j hlt => absurd hlt (Nat.not_lt_zero j)
    · exact fun htrue => absurd htrue Bool.false_ne_true
    · exact ⟨fun j _ hlt => absurd hlt (Nat.not_lt_zero j),
        fun j _ hlt => absurd hlt (Nat.not_lt_zero j), rfl, rfl, rfl⟩
  exact allSteps_iff (step functions) (I := Rests functions.length)
    (fun _ _ _ hs h => rests_step hs h) hinitial

end Session

section Attributes

variable {k n r attrs : ℕ} {a : Answer} {g : Gadget}

/-- Up to the file that fails. -/
theorem create_files_failing (dev : Ptr) (hfile : a.device_create_file k ≠ 0)
    (hbefore : ∀ j < k, a.device_create_file j = 0) (hle : attrs ≤ k) (hk : k < attrs + r) :
    (create_files dev a r attrs 0 g).2 = (a.device_create_file k, k + 2) ∧
      (create_files dev a r attrs 0 g).1.files dev = g.files dev ∪ Finset.Ico attrs k ∧
      (create_files dev a r attrs 0 g).1.absent = g.absent := by
  induction r generalizing attrs g with
  | zero => omega
  | succ r ih =>
    rw [create_files, if_neg (not_not.mpr rfl)]
    rcases Nat.eq_or_lt_of_le hle with rfl | hlt
    · rw [if_pos hfile, Finset.Ico_self, Finset.union_empty]
      cases r with
      | zero => exact ⟨rfl, rfl, rfl⟩
      | succ r =>
        rw [create_files, if_pos hfile]
        exact ⟨rfl, rfl, rfl⟩
    · rw [if_neg (not_not.mpr (hbefore attrs hlt))]
      obtain ⟨hend, hfiles, habsent⟩ := @ih (attrs + 1) (g.device_create_file dev attrs)
        (by omega) (by omega)
      refine ⟨hend, ?_, habsent⟩
      rw [hfiles, Gadget.device_create_file]
      dsimp only
      rw [Function.update_self]
      ext x
      simp only [Finset.mem_union, Finset.mem_insert, Finset.mem_Ico]
      by_cases hx : x ∈ g.files dev
      · simp only [hx, or_true, true_or]
      · simp only [hx, or_false, false_or]
        omega

/-- The removals from file `attrs + 1` down to 2, all of which are there. -/
theorem remove_files_present (hn : n ∈ g.devices.live)
    (hfiles : g.files (.obj n) = Finset.range (attrs + 2)) :
    (remove_files (.obj n) attrs (attrs + 1) g).files (.obj n) = Finset.range 2 ∧
      (remove_files (.obj n) attrs (attrs + 1) g).absent = g.absent := by
  induction attrs generalizing g with
  | zero => exact ⟨hfiles, rfl⟩
  | succ attrs ih =>
    have hmem : attrs + 1 + 1 ∈ g.files (.obj n) := by
      rw [hfiles, Finset.mem_range]
      omega
    have hstep : g.device_remove_file (.obj n) (attrs + 1 + 1) = { g with
        files := Function.update g.files (.obj n)
          ((g.files (.obj n)).erase (attrs + 1 + 1)) } := by
      simp only [Gadget.device_remove_file, if_pos hn, if_pos hmem]
    rw [remove_files, hstep]
    refine @ih { g with
        files := Function.update g.files (.obj n)
          ((g.files (.obj n)).erase (attrs + 1 + 1)) } hn ?_
    dsimp only
    rw [Function.update_self, hfiles]
    ext x
    simp only [Finset.mem_erase, Finset.mem_range]
    omega

theorem device_remove_file_absent {attr : ℕ} (hn : n ∈ g.devices.live)
    (hattr : attr ∉ g.files (.obj n)) :
    g.device_remove_file (.obj n) attr = { g with absent := g.absent + 1 } := by
  simp only [Gadget.device_remove_file, if_pos hn, if_neg hattr]

/-- When file `k` of a new device is the first that fails, the two loops together leave
the first two files in place, and ask as often for the removal of file `k`, which is not
there. -/
theorem err_attrs_leaves {f : UsbFunction} (hn : n ∈ g.devices.live)
    (hempty : g.files (.obj n) = ∅) (hk : k < f.attributes)
    (hfile : a.device_create_file k ≠ 0) (hbefore : ∀ j < k, a.device_create_file j = 0) :
    let r := create_files (.obj n) a f.attributes 0 0 g
    let u := remove_files (.obj n) (r.2.2 - 2) (r.2.2 - 2) r.1
    u.files (.obj n) = Finset.range (min k 2) ∧ u.absent = g.absent + min k 2 := by
  intro r u
  obtain ⟨hend, hfiles, habsent⟩ := @create_files_failing k f.attributes 0 a g (.obj n) hfile
    hbefore (Nat.zero_le k) (by omega)
  have hlive : n ∈ r.1.devices.live := by
    rw [(create_files_same (.obj n) a f.attributes 0 0 g).devices]
    exact hn
  have hattrs : r.2.2 - 2 = k := by
    rw [hend]
    exact Nat.add_sub_cancel k 2
  have hmade : r.1.files (.obj n) = Finset.range k := by
    rw [hfiles, hempty, Finset.empty_union, Finset.range_eq_Ico]
  have hnot : k ∉ r.1.files (.obj n) := by
    rw [hmade, Finset.mem_range]
    omega
  have hfirst := device_remove_file_absent hlive hnot
  change _ = _ ∧ _ = _
  simp only [u, hattrs]
  rcases k with _ | _ | k
  · exact ⟨hmade, habsent⟩
  · rw [remove_files, hfirst]
    exact ⟨hmade, congrArg (· + 1) habsent⟩
  · have hsecond := @device_remove_file_absent n { r.1 with absent := r.1.absent + 1 } (k + 1 + 1)
      hlive hnot
    rw [remove_files, hfirst, remove_files, hsecond]
    obtain ⟨hleft, hsame⟩ := @remove_files_present n k { r.1 with absent := r.1.absent + 1 + 1 }
      hlive hmade
    rw [show min (k + 1 + 1) 2 = 2 by omega]
    exact ⟨hleft, hsame.trans (congrArg (· + 2) habsent)⟩

end Attributes

/-- The third of three files fails: both files before it stay. -/
theorem err_attrs_leaves_third :
    let g := { initial.gadget with devices := Ledger.empty.alloc }
    let a : Answer := ⟨true, 0, 0, fun attr => if attr = 2 then -ENOMEM else 0⟩
    let r := create_files (.obj 0) a 3 0 0 g
    (remove_files (.obj 0) (r.2.2 - 2) (r.2.2 - 2) r.1).files (.obj 0) = {0, 1} :=
  (@err_attrs_leaves 2 0 ⟨true, 0, 0, fun attr => if attr = 2 then -ENOMEM else 0⟩
    { initial.gadget with devices := Ledger.empty.alloc } ⟨false, false, 3⟩ (by decide) rfl
    (by decide) (by decide) (by decide)).1

end Fixed.FunctionInit
