import Fixed.AndroidDevice
import Fixed.PortPairs
import Fixed.Runs

/-!
The `serial` function over whole runs of the gadget driver. The ports are opened by
the binds until one of them gets all their references; from then on no call can
crash, every instance has its references until the clean-up puts them, and a function
that is initialised again after that has no port any more. An attempt that fails before
leaves its instances counted, so that retries overrun the arrays: the attempt after `j`
failed ones with `n` ports each takes `(j + 1) * n` references, and one more if a single
port was completed by the second that the driver always opens.
-/
namespace Fixed.SerialPorts

open CString ObjectLedger PortPairs Runs

def MAX_SERIAL_INSTANCES : ℕ := 4

def transportsSize : ℕ := 32

def tty : List Char := ['t', 't', 'y']
def serial_tty : List Char := ['s', 'e', 'r', 'i', 'a', 'l', '_', 't', 't', 'y']

abbrev Port := List Char × Option (List Char)

structure Answers extends CoreAnswers where
  gserial_init_port : ℕ → Port → ℤ
  gport_setup : ℤ

structure Serial extends Ports where
  serial_transports : List Char
  serial_xport_names : List Char
  serial_initialized : Bool
  /-- `config` of the function is not null. -/
  config : Bool
  bound : Bool

def serial_transports_store (s : Serial) (buff : List Char) : Serial :=
  { s with serial_transports := strlcpy buff transportsSize }

def serial_xport_names_store (s : Serial) (buff : List Char) : Serial :=
  { s with serial_xport_names := strlcpy buff transportsSize }

def serial_function_init (s : Serial) (kzalloc : Bool) : Serial :=
  if kzalloc then
    { s with config := true, instances_on := 0, func := fun _ => .null, inst := fun _ => .null }
  else s

def serial_function_cleanup (s : Serial) : Serial :=
  { s with toPorts := put_ports MAX_SERIAL_INSTANCES s.toPorts 0 s.instances_on, config := false }

/-- The names of the ports, each with the transport name that is read beside it. When
there are no more of those, the last is kept. -/
def portNames (xport_name : Option (List Char)) : List (List Char) → List (List Char) → List Port
  | [], _ => []
  | name :: names, [] => (name, xport_name) :: portNames xport_name names []
  | name :: names, tb :: tbs => (name, some tb) :: portNames (some tb) names tbs

def Serial.names (s : Serial) : List Port :=
  let cut (buff : List Char) := strim AndroidDevice.isspace (strlcpy buff transportsSize)
  portNames none (fields (cut s.serial_transports) ',') (fields (cut s.serial_xport_names) ',')

def bind_config (s : Serial) (a : Answers) (ports : ℕ) : ℤ × Serial :=
  let (err, p) := add_ports a.toCoreAnswers s.toPorts 0 ports
  (err, { s with toPorts := p })

/-- No port is opened once the function is initialised, and the result then has its first
value. -/
def serial_function_bind_config (s : Serial) (a : Answers) : ℤ × Serial :=
  if s.serial_initialized then
    match init_ports MAX_SERIAL_INSTANCES (fun _ _ => 0) 0 s.names with
    | (_, some _) => (-1, s)
    | (ports, none) => bind_config s a (min ports s.instances_on)
  else
    let (ports, err) := init_ports MAX_SERIAL_INSTANCES a.gserial_init_port 0 s.names
    let s := { s with instances_on := s.instances_on + ports }
    match err with
    | some err => (err, s)
    | none =>
      let err := if s.instances_on = 1 then a.gserial_init_port ports (tty, some serial_tty) else 0
      if err ≠ 0 then (err, s)
      else
        let s := if s.instances_on = 1 then { s with instances_on := s.instances_on + 1 } else s
        let ports := min ports s.instances_on
        if a.gport_setup ≠ 0 then (a.gport_setup, s)
        else
          let (err, p) :=
            get_ports MAX_SERIAL_INSTANCES a.toCoreAnswers s.toPorts 0 s.instances_on
          let s := { s with toPorts := p }
          if p.crashed ∨ err ≠ 0 then (err, s)
          else bind_config { s with serial_initialized := true } a ports

def android_bind_enabled_function (s : Serial) (a : Answers) : Serial :=
  let (ret, s) := serial_function_bind_config s a
  if s.crashed then s else { s with bound := ret = 0 }

/-- The composite driver drops the functions of a configuration before
`android_unbind_enabled_functions`; this one has no `unbind_config`. -/
def android_unbind_enabled_function (s : Serial) : Serial := { s with added := [], bound := false }

inductive Event
  | transports_store (buff : List Char)
  | xport_names_store (buff : List Char)
  | init (kzalloc : Bool)
  | bind (a : Answers)
  | unbind
  | cleanup

/-- The gadget driver initialises the function, binds and unbinds it in turn, and cleans
up when it is unbound. A crash ends a run. -/
def step (s : Serial) (e : Event) : Option Serial :=
  if s.crashed then none
  else
    match e with
    | .transports_store buff => some (serial_transports_store s buff)
    | .xport_names_store buff => some (serial_xport_names_store s buff)
    | .init kzalloc => if s.config then none else some (serial_function_init s kzalloc)
    | .bind a => if s.config ∧ ¬ s.bound then some (android_bind_enabled_function s a) else none
    | .unbind => if s.config then some (android_unbind_enabled_function s) else none
    | .cleanup => if s.config ∧ ¬ s.bound then some (serial_function_cleanup s) else none

def initial : Serial where
  instances_on := 0
  func _ := .null
  inst _ := .null
  functions := .empty
  instances := .empty
  added := []
  crashed := false
  serial_transports := []
  serial_xport_names := []
  serial_initialized := false
  config := false
  bound := false

def opening (s : Serial) (a : Answers) : ℕ × Option ℤ :=
  init_ports MAX_SERIAL_INSTANCES a.gserial_init_port 0 s.names

def secondPort (s : Serial) (a : Answers) : ℤ :=
  a.gserial_init_port (opening s a).1 (tty, some serial_tty)

def counted (s : Serial) (a : Answers) : ℕ :=
  let on := s.instances_on + (opening s a).1
  if (opening s a).2 = none ∧ on = 1 ∧ secondPort s a = 0 then on + 1 else on

structure Reaches (s : Serial) (a : Answers) : Prop where
  opened : (opening s a).2 = none
  second : s.instances_on + (opening s a).1 = 1 → secondPort s a = 0
  setup : a.gport_setup = 0

structure Trying (s : Serial) : Prop where
  initialized : s.serial_initialized = false
  crashed : s.crashed = false
  released : s.Released
  added : s.added = []

structure Serving (s : Serial) (m n k : ℕ) : Prop where
  initialized : s.serial_initialized = true
  crashed : s.crashed = false
  config : s.config = true
  on : s.instances_on = k
  le : k ≤ MAX_SERIAL_INSTANCES
  held : Held s.toPorts m n k
  added : s.added = [] ∨ s.bound = true ∧ ∃ q ≤ k, s.added = List.range' m q

structure Gone (s : Serial) : Prop where
  initialized : s.serial_initialized = true
  crashed : s.crashed = false
  on : s.config = true → s.instances_on = 0
  released : s.Released
  added : s.added = []

theorem not_crashed {s t : Serial} {e : Event} (h : step s e = some t) : s.crashed = false := by
  cases hc : s.crashed with
  | false => rfl
  | true => simp [step, hc] at h

/-- What a step may be. -/
theorem step_cases {s t : Serial} {e : Event} (h : step s e = some t) :
    (∃ buff, e = .transports_store buff ∧ t = serial_transports_store s buff) ∨
    (∃ buff, e = .xport_names_store buff ∧ t = serial_xport_names_store s buff) ∨
    (∃ ok, e = .init ok ∧ s.config = false ∧ t = serial_function_init s ok) ∨
    (∃ a, e = .bind a ∧ s.config = true ∧ s.bound = false ∧
      t = android_bind_enabled_function s a) ∨
    (e = .unbind ∧ s.config = true ∧ t = android_unbind_enabled_function s) ∨
    (e = .cleanup ∧ s.config = true ∧ s.bound = false ∧ t = serial_function_cleanup s) := by
  have hc := not_crashed h
  simp only [step, hc, Bool.false_eq_true, if_false] at h
  cases e with
  | transports_store buff => exact Or.inl ⟨buff, rfl, (Option.some.inj h).symm⟩
  | xport_names_store buff => exact Or.inr (Or.inl ⟨buff, rfl, (Option.some.inj h).symm⟩)
  | init ok =>
    dsimp only at h
    split at h
    · exact absurd h (by simp)
    · rename_i hconfig
      exact Or.inr (Or.inr (Or.inl ⟨ok, rfl, by simpa using hconfig, (Option.some.inj h).symm⟩))
  | bind a =>
    dsimp only at h
    split at h
    · rename_i hguard
      exact Or.inr (Or.inr (Or.inr (Or.inl
        ⟨a, rfl, hguard.1, by simpa using hguard.2, (Option.some.inj h).symm⟩)))
    · exact absurd h (by simp)
  | unbind =>
    dsimp only at h
    split at h
    · rename_i hguard
      exact Or.inr (Or.inr (Or.inr (Or.inr (Or.inl ⟨rfl, hguard, (Option.some.inj h).symm⟩))))
    · exact absurd h (by simp)
  | cleanup =>
    dsimp only at h
    split at h
    · rename_i hguard
      exact Or.inr (Or.inr (Or.inr (Or.inr (Or.inr
        ⟨rfl, hguard.1, by simpa using hguard.2, (Option.some.inj h).symm⟩))))
    · exact absurd h (by simp)

section Bind

variable {s : Serial} {a : Answers}

/-- A bind behind the initialisation. -/
theorem bind_initialized (hinit : s.serial_initialized = true) :
    serial_function_bind_config s a = (-1, s) ∨
      ∃ ports ≤ s.instances_on, serial_function_bind_config s a = bind_config s a ports := by
  rw [serial_function_bind_config, if_pos hinit]
  split
  · exact Or.inl rfl
  · exact Or.inr ⟨_, Nat.min_le_right _ _, rfl⟩

/-- From the label `bind_config` on, with the references of `k` ports held. -/
theorem serving_bind {u : Serial} {m n k ports : ℕ} (hu : Serving u m n k) (hadded : u.added = [])
    (hports : ports ≤ k) (hbind : serial_function_bind_config s a = bind_config u a ports) :
    Serving (android_bind_enabled_function s a) m n k ∧
      (android_bind_enabled_function s a).functions = u.functions ∧
      (android_bind_enabled_function s a).instances = u.instances := by
  have hall : ∀ j < 0 + ports, u.func j = .obj (m + j) ∧ m + j ∈ u.functions.live := by
    intro j hj
    refine ⟨hu.held.func j (by omega), ?_⟩
    rw [hu.held.functions, Finset.mem_Ico]
    omega
  obtain ⟨err, -, heq⟩ := add_ports_live (a := a.toCoreAnswers) hall hadded hu.crashed
  rw [Nat.zero_add] at heq
  have ht : android_bind_enabled_function s a =
      { u with added := if err = 0 then List.range' m ports else [], bound := err = 0 } := by
    simp only [android_bind_enabled_function, hbind, bind_config, heq, hu.crashed,
      Bool.false_eq_true, if_false]
  obtain ⟨hinit, hcrashed, hconfig, hon, hle, ⟨hfunc, hinst, hfunctions, hinstances⟩, -⟩ := hu
  rw [ht]
  refine ⟨⟨hinit, hcrashed, hconfig, hon, hle, ⟨hfunc, hinst, hfunctions, hinstances⟩, ?_⟩,
    rfl, rfl⟩
  by_cases he : err = 0
  · exact Or.inr ⟨decide_eq_true he, ports, hports, if_pos he⟩
  · exact Or.inl (if_neg he)

def counting (s : Serial) (a : Answers) : Serial := { s with instances_on := counted s a }

/-- An attempt that does not come to take references. -/
theorem attempt_unreached (hinit : s.serial_initialized = false) (hnot : ¬ Reaches s a) :
    ∃ err, serial_function_bind_config s a = (err, counting s a) ∧
      (err = 0 ↔ (opening s a).2 = some 0) := by
  rcases hopening : opening s a with ⟨n, _ | e⟩
  · have hopen := hopening
    rw [opening] at hopen
    by_cases hsecond : s.instances_on + n = 1 ∧ a.gserial_init_port n (tty, some serial_tty) ≠ 0
    · refine ⟨a.gserial_init_port n (tty, some serial_tty), ?_, by simp [hsecond.2]⟩
      simp [serial_function_bind_config, hinit, hopen, hsecond.1, hsecond.2, counting, counted,
        hopening, secondPort]
    · have hsecond' : s.instances_on + n = 1 →
          a.gserial_init_port n (tty, some serial_tty) = 0 := by
        intro hone
        by_contra hne
        exact hsecond ⟨hone, hne⟩
      have hsetup : a.gport_setup ≠ 0 := by
        intro hsetup
        refine hnot ⟨by rw [hopening], ?_, hsetup⟩
        rw [secondPort, hopening]
        exact hsecond'
      refine ⟨a.gport_setup, ?_, by simp [hsetup]⟩
      by_cases hone : s.instances_on + n = 1
      · simp [serial_function_bind_config, hinit, hopen, hone, hsecond' hone, hsetup, counting,
          counted, hopening, secondPort]
      · simp [serial_function_bind_config, hinit, hopen, hone, hsetup, counting, counted, hopening]
  · have hopen := hopening
    rw [opening] at hopen
    refine ⟨e, ?_, by simp⟩
    simp [serial_function_bind_config, hinit, hopen, counting, counted, hopening]

/-- An attempt that comes to take references. -/
theorem attempt_reached (hinit : s.serial_initialized = false) (hreaches : Reaches s a) {err : ℤ}
    {p : Ports} (hget : get_ports MAX_SERIAL_INSTANCES a.toCoreAnswers (counting s a).toPorts 0
      (counted s a) = (err, p)) :
    serial_function_bind_config s a =
      if p.crashed ∨ err ≠ 0 then (err, { counting s a with toPorts := p })
      else bind_config { counting s a with toPorts := p, serial_initialized := true } a
        (min (opening s a).1 (counted s a)) := by
  obtain ⟨hopened, hsecond, hsetup⟩ := hreaches
  rcases hopening : opening s a with ⟨n, r⟩
  obtain rfl : r = none := by rw [← hopened, hopening]
  rw [secondPort, hopening] at hsecond
  have hopen := hopening
  rw [opening] at hopen
  by_cases hone : s.instances_on + n = 1
  · have hcounted : counted s a = s.instances_on + n + 1 := by
      simp [counted, hopening, hone, secondPort, hsecond hone]
    rw [counting, hcounted] at hget
    simp only [serial_function_bind_config, hinit, hopen, hone, hsecond hone, hsetup, counting,
      hcounted, Bool.false_eq_true, if_false, if_true, ne_eq, not_true_eq_false] at hget ⊢
    rw [hget]
  · have hcounted : counted s a = s.instances_on + n := by
      simp [counted, hopening, hone]
    rw [counting, hcounted] at hget
    simp only [serial_function_bind_config, hinit, hopen, hone, hsetup, counting,
      hcounted, Bool.false_eq_true, if_false, ne_eq, not_true_eq_false] at hget ⊢
    rw [hget]

def Taken (s : Serial) (a : Answers) : Prop :=
  Reaches s a ∧ a.Gives 0 (min MAX_SERIAL_INSTANCES (counted s a))

variable (hs : Trying s)

include hs

theorem held_counting : Held (counting s a).toPorts s.functions.made s.instances.made 0 :=
  ⟨nofun, nofun, by rw [Nat.add_zero, Finset.Ico_self]; exact hs.released.functions,
    by rw [Nat.add_zero, Finset.Ico_self]; exact hs.released.instances⟩

/-- An attempt that takes no references leaves its ports counted. -/
theorem attempt_failed (hnot : ¬ Taken s a) :
    let t := android_bind_enabled_function s a
    Trying t ∧ t.instances_on = counted s a ∧ t.names = s.names ∧ t.config = s.config ∧
      (t.bound = true ↔ (opening s a).2 = some 0) := by
  intro t
  by_cases hreaches : Reaches s a
  · have hgot := get_ports_got (k := counted s a) (a := a.toCoreAnswers)
      (held_counting (a := a) hs) rfl rfl (Nat.zero_le MAX_SERIAL_INSTANCES)
    rcases hget : get_ports MAX_SERIAL_INSTANCES a.toCoreAnswers (counting s a).toPorts 0
      (counted s a) with ⟨err, p⟩
    rw [hget] at hgot
    have hbind := attempt_reached hs.initialized hreaches hget
    cases hgot with
    | all _ hle hgiven _ _ =>
      rw [Nat.zero_add] at hle
      exact absurd ⟨hreaches, by rwa [Nat.min_eq_right hle]⟩ hnot
    | overrun _ hlt hgiven _ _ =>
      rw [Nat.zero_add] at hlt
      exact absurd ⟨hreaches, by rwa [Nat.min_eq_left hlt.le]⟩ hnot
    | refused _ _ he _ hreleased hkeeps _ =>
      have hp : p.crashed = false := hkeeps.crashed.trans hs.crashed
      have ht : t = { counting s a with toPorts := p, bound := false } := by
        simp only [t, android_bind_enabled_function, hbind, hp, Bool.false_eq_true, he, ne_eq,
          not_false_eq_true, or_true, if_true, if_false, decide_false]
      rw [ht]
      refine ⟨⟨hs.initialized, hp, hreleased, hkeeps.added.trans hs.added⟩, hkeeps.instances_on,
        rfl, rfl, ?_⟩
      simp [hreaches.opened]
  · obtain ⟨err, hbind, herr⟩ := attempt_unreached hs.initialized hreaches
    have ht : t = { counting s a with bound := err = 0 } := by
      simp only [t, android_bind_enabled_function, hbind, counting, hs.crashed, Bool.false_eq_true,
        if_false]
    rw [ht]
    refine ⟨⟨hs.initialized, hs.crashed, ⟨hs.released.functions, hs.released.instances⟩, hs.added⟩,
      rfl, rfl, rfl, ?_⟩
    exact decide_eq_true_iff.trans herr

/-- An attempt that takes its references serves from then on. -/
theorem attempt_serving (htaken : Taken s a) (hconfig : s.config = true)
    (hle : counted s a ≤ MAX_SERIAL_INSTANCES) :
    Serving (android_bind_enabled_function s a) s.functions.made s.instances.made
        (counted s a) ∧ (android_bind_enabled_function s a).functions.faults = s.functions.faults ∧
      (android_bind_enabled_function s a).instances.faults = s.instances.faults := by
  have hgot := get_ports_got (k := counted s a) (a := a.toCoreAnswers)
    (held_counting (a := a) hs) rfl rfl (Nat.zero_le MAX_SERIAL_INSTANCES)
  rcases hget : get_ports MAX_SERIAL_INSTANCES a.toCoreAnswers (counting s a).toPorts 0
    (counted s a) with ⟨err, p⟩
  rw [hget] at hgot
  have hbind := attempt_reached hs.initialized htaken.1 hget
  cases hgot with
  | all _ _ _ hheld hkeeps =>
    rw [Nat.zero_add] at hheld
    have hp : p.crashed = false := hkeeps.crashed.trans hs.crashed
    rw [hp, if_neg (by simp)] at hbind
    have hu : Serving { counting s a with toPorts := p, serial_initialized := true }
        s.functions.made s.instances.made (counted s a) := by
      refine ⟨rfl, hp, hconfig, hkeeps.instances_on, hle, hheld, Or.inl ?_⟩
      exact hkeeps.added.trans hs.added
    obtain ⟨hserving, hfunctions, hinstances⟩ :=
      serving_bind hu (hkeeps.added.trans hs.added) (Nat.min_le_right _ _) hbind
    rw [hfunctions, hinstances]
    exact ⟨hserving, hkeeps.functions, hkeeps.instances⟩
  | overrun _ hlt _ _ _ => omega
  | refused _ _ _ hgiven _ _ _ =>
    rw [Nat.zero_add, Nat.sub_zero] at hgiven
    exact absurd htaken.2 hgiven

/-- An attempt with more instances than places overruns the arrays. -/
theorem attempt_overrun (htaken : Taken s a) (hlt : MAX_SERIAL_INSTANCES < counted s a) :
    (android_bind_enabled_function s a).crashed = true := by
  have hgot := get_ports_got (k := counted s a) (a := a.toCoreAnswers)
    (held_counting (a := a) hs) rfl rfl (Nat.zero_le MAX_SERIAL_INSTANCES)
  rcases hget : get_ports MAX_SERIAL_INSTANCES a.toCoreAnswers (counting s a).toPorts 0
    (counted s a) with ⟨err, p⟩
  rw [hget] at hgot
  have hbind := attempt_reached hs.initialized htaken.1 hget
  cases hgot with
  | all _ hle _ _ _ => omega
  | overrun _ _ _ _ hcrashed =>
    simp [android_bind_enabled_function, hbind, hcrashed]
  | refused _ _ _ hgiven _ _ _ =>
    rw [Nat.zero_add, Nat.sub_zero] at hgiven
    exact absurd htaken.2 hgiven

end Bind

structure SameFaults (s t : Serial) : Prop where
  functions : t.functions.faults = s.functions.faults
  instances : t.instances.faults = s.instances.faults

/-- What a step makes of held references. -/
theorem serving_step {s t : Serial} {m n k : ℕ} {e : Event} (hs : Serving s m n k)
    (h : step s e = some t) :
    SameFaults s t ∧ (e ≠ .cleanup ∧ Serving t m n k ∨ e = .cleanup ∧ Gone t) := by
  have hconfig := hs.config
  rcases step_cases h with ⟨buff, rfl, rfl⟩ | ⟨buff, rfl, rfl⟩ | ⟨ok, rfl, hnone, rfl⟩ |
    ⟨a, rfl, -, hb, rfl⟩ | ⟨rfl, -, rfl⟩ | ⟨rfl, -, hb, rfl⟩
  · obtain ⟨hinit, hcrashed, hconfig, hon, hle, ⟨hf, hi, hfs, his⟩, hadded⟩ := hs
    exact ⟨⟨rfl, rfl⟩,
      Or.inl ⟨nofun, hinit, hcrashed, hconfig, hon, hle, ⟨hf, hi, hfs, his⟩, hadded⟩⟩
  · obtain ⟨hinit, hcrashed, hconfig, hon, hle, ⟨hf, hi, hfs, his⟩, hadded⟩ := hs
    exact ⟨⟨rfl, rfl⟩,
      Or.inl ⟨nofun, hinit, hcrashed, hconfig, hon, hle, ⟨hf, hi, hfs, his⟩, hadded⟩⟩
  · rw [hconfig] at hnone
    exact absurd hnone (by simp)
  · have hadded : s.added = [] := by
      rcases hs.added with hadded | ⟨hbound, -⟩
      · exact hadded
      · rw [hb] at hbound
        exact absurd hbound (by simp)
    rcases bind_initialized (a := a) hs.initialized with hbind | ⟨ports, hports, hbind⟩
    · have ht : android_bind_enabled_function s a = s := by
        obtain ⟨s', _, _, _, _, bound⟩ := s
        obtain rfl : bound = false := hb
        simp [android_bind_enabled_function, hbind]
      rw [ht]
      exact ⟨⟨rfl, rfl⟩, Or.inl ⟨nofun, hs⟩⟩
    · obtain ⟨hserving, hfunctions, hinstances⟩ :=
        serving_bind hs hadded (hs.on ▸ hports) hbind
      refine ⟨⟨?_, ?_⟩, Or.inl ⟨nofun, hserving⟩⟩
      · rw [hfunctions]
      · rw [hinstances]
  · obtain ⟨hinit, hcrashed, hconfig, hon, hle, ⟨hf, hi, hfs, his⟩, -⟩ := hs
    exact ⟨⟨rfl, rfl⟩,
      Or.inl ⟨nofun, hinit, hcrashed, hconfig, hon, hle, ⟨hf, hi, hfs, his⟩, Or.inl rfl⟩⟩
  · have hadded : s.added = [] := by
      rcases hs.added with hadded | ⟨hbound, -⟩
      · exact hadded
      · rw [hb] at hbound
        exact absurd hbound (by simp)
    obtain ⟨hreleased, hkeeps⟩ := @put_ports_held MAX_SERIAL_INSTANCES s.toPorts m n 0
      s.instances_on (by rw [hs.on, Nat.zero_add]; exact hs.le)
      (fun j _ hj => hs.held.func j (by have := hs.on; omega))
      (fun j _ hj => hs.held.inst j (by have := hs.on; omega))
      (by rw [hs.held.functions, hs.on]; rfl) (by rw [hs.held.instances, hs.on]; rfl)
    refine ⟨⟨hkeeps.functions, hkeeps.instances⟩, Or.inr ⟨rfl, hs.initialized, ?_, nofun, ?_, ?_⟩⟩
    · exact hkeeps.crashed.trans hs.crashed
    · exact ⟨hreleased.functions, hreleased.instances⟩
    · exact hkeeps.added.trans hadded

/-- What a step makes of a function without ports. -/
theorem gone_step {s t : Serial} {e : Event} (hs : Gone s) (h : step s e = some t) :
    SameFaults s t ∧ Gone t := by
  obtain ⟨hinit, hcrashed, hon, ⟨hfs, his⟩, hadded⟩ := hs
  rcases step_cases h with ⟨buff, -, rfl⟩ | ⟨buff, -, rfl⟩ | ⟨ok, -, hnone, rfl⟩ |
    ⟨a, -, hconfig, hb, rfl⟩ | ⟨-, -, rfl⟩ | ⟨-, hconfig, hb, rfl⟩
  · exact ⟨⟨rfl, rfl⟩, hinit, hcrashed, hon, ⟨hfs, his⟩, hadded⟩
  · exact ⟨⟨rfl, rfl⟩, hinit, hcrashed, hon, ⟨hfs, his⟩, hadded⟩
  · cases ok with
    | true => exact ⟨⟨rfl, rfl⟩, hinit, hcrashed, fun _ => rfl, ⟨hfs, his⟩, hadded⟩
    | false => exact ⟨⟨rfl, rfl⟩, hinit, hcrashed, hon, ⟨hfs, his⟩, hadded⟩
  · rcases bind_initialized (a := a) hinit with hbind | ⟨ports, hports, hbind⟩
    · have ht : android_bind_enabled_function s a = { s with bound := false } := by
        simp [android_bind_enabled_function, hbind, hcrashed]
      rw [ht]
      exact ⟨⟨rfl, rfl⟩, hinit, hcrashed, hon, ⟨hfs, his⟩, hadded⟩
    · rw [hon hconfig, Nat.le_zero] at hports
      have ht : android_bind_enabled_function s a = { s with bound := true } := by
        simp [android_bind_enabled_function, hbind, bind_config, hports, add_ports, hcrashed]
      rw [ht]
      exact ⟨⟨rfl, rfl⟩, hinit, hcrashed, hon, ⟨hfs, his⟩, hadded⟩
  · exact ⟨⟨rfl, rfl⟩, hinit, hcrashed, hon, ⟨hfs, his⟩, rfl⟩
  · rw [serial_function_cleanup, hon hconfig, put_ports]
    exact ⟨⟨rfl, rfl⟩, hinit, hcrashed, by simp, ⟨hfs, his⟩, hadded⟩

/-- What a step makes of a function that has not been initialised. -/
theorem trying_step {s t : Serial} {e : Event} (hs : Trying s) (h : step s e = some t) :
    t.crashed = true ∨ Trying t ∨ ∃ m n k, Serving t m n k := by
  rcases step_cases h with ⟨buff, rfl, rfl⟩ | ⟨buff, rfl, rfl⟩ | ⟨ok, rfl, hnone, rfl⟩ |
    ⟨a, rfl, hconfig, hb, rfl⟩ | ⟨rfl, -, rfl⟩ | ⟨rfl, -, hb, rfl⟩
  · obtain ⟨hinit, hcrashed, ⟨hfs, his⟩, hadded⟩ := hs
    exact Or.inr (Or.inl ⟨hinit, hcrashed, ⟨hfs, his⟩, hadded⟩)
  · obtain ⟨hinit, hcrashed, ⟨hfs, his⟩, hadded⟩ := hs
    exact Or.inr (Or.inl ⟨hinit, hcrashed, ⟨hfs, his⟩, hadded⟩)
  · obtain ⟨hinit, hcrashed, ⟨hfs, his⟩, hadded⟩ := hs
    cases ok with
    | true => exact Or.inr (Or.inl ⟨hinit, hcrashed, ⟨hfs, his⟩, hadded⟩)
    | false => exact Or.inr (Or.inl ⟨hinit, hcrashed, ⟨hfs, his⟩, hadded⟩)
  · by_cases htaken : Taken s a
    · rcases Nat.lt_or_ge MAX_SERIAL_INSTANCES (counted s a) with hlt | hle
      · exact Or.inl (attempt_overrun hs htaken hlt)
      · exact Or.inr (Or.inr ⟨_, _, _, (attempt_serving hs htaken hconfig hle).1⟩)
    · exact Or.inr (Or.inl (attempt_failed hs htaken).1)
  · obtain ⟨hinit, hcrashed, ⟨hfs, his⟩, hadded⟩ := hs
    exact Or.inr (Or.inl ⟨hinit, hcrashed, ⟨hfs, his⟩, rfl⟩)
  · obtain ⟨⟨hfs, his⟩, hadded⟩ :=
      @put_ports_released MAX_SERIAL_INSTANCES s.toPorts 0 s.instances_on hs.released
    cases hc : (serial_function_cleanup s).crashed with
    | true => exact Or.inl rfl
    | false => exact Or.inr (Or.inl ⟨hs.initialized, hc, ⟨hfs, his⟩, hadded.trans hs.added⟩)

def Lives (s : Serial) : Prop := Trying s ∨ (∃ m n k, Serving s m n k) ∨ Gone s

theorem lives_run {s : Serial} {es : List Event} (hrun : exec step initial es = some s)
    (hc : s.crashed = false) : Lives s := by
  have hkeep : ∀ s e t, (s.crashed = true ∨ Lives s) → step s e = some t →
      t.crashed = true ∨ Lives t := by
    rintro s e t (hcrashed | hs | ⟨m, n, k, hs⟩ | hs) ht
    · rw [not_crashed ht] at hcrashed
      exact absurd hcrashed (by simp)
    · rcases trying_step hs ht with hcrashed | hnext | hnext
      · exact Or.inl hcrashed
      · exact Or.inr (Or.inl hnext)
      · exact Or.inr (Or.inr (Or.inl hnext))
    · rcases (serving_step hs ht).2 with ⟨-, hnext⟩ | ⟨-, hnext⟩
      · exact Or.inr (Or.inr (Or.inl ⟨m, n, k, hnext⟩))
      · exact Or.inr (Or.inr (Or.inr hnext))
    · exact Or.inr (Or.inr (Or.inr (gone_step hs ht).2))
  have hinitial : initial.crashed = true ∨ Lives initial :=
    Or.inr (Or.inl ⟨rfl, rfl, ⟨rfl, rfl⟩, rfl⟩)
  rcases exec_invariant step hkeep hinitial hrun with hcrashed | hlives
  · rw [hc] at hcrashed
    exact absurd hcrashed (by simp)
  · exact hlives

theorem SameFaults.trans {s t u : Serial} (h : SameFaults s t) (h' : SameFaults t u) :
    SameFaults s u :=
  ⟨h'.functions.trans h.functions, h'.instances.trans h.instances⟩

theorem gone_run {s t : Serial} {es : List Event} (hs : Gone s) (h : exec step s es = some t) :
    SameFaults s t ∧ Gone t := by
  refine exec_invariant step (I := fun u => SameFaults s u ∧ Gone u) ?_ ⟨⟨rfl, rfl⟩, hs⟩ h
  rintro u e v ⟨hfaults, hu⟩ hv
  obtain ⟨hfaults', hv'⟩ := gone_step hu hv
  exact ⟨hfaults.trans hfaults', hv'⟩

theorem serving_run {s t : Serial} {m n k : ℕ} {es : List Event} (hs : Serving s m n k)
    (h : exec step s es = some t) :
    SameFaults s t ∧ (.cleanup ∉ es ∧ Serving t m n k ∨ .cleanup ∈ es ∧ Gone t) := by
  induction es generalizing s with
  | nil =>
    obtain rfl : s = t := Option.some.inj h
    exact ⟨⟨rfl, rfl⟩, Or.inl ⟨List.not_mem_nil, hs⟩⟩
  | cons e es ih =>
    obtain ⟨u, hu, hrest⟩ := (exec_cons_eq_some step).mp h
    obtain ⟨hfaults, hnext⟩ := serving_step hs hu
    rcases hnext with ⟨he, hserving⟩ | ⟨rfl, hgone⟩
    · obtain ⟨hfaults', hend⟩ := ih hserving hrest
      refine ⟨hfaults.trans hfaults', ?_⟩
      rw [List.mem_cons, or_iff_right he.symm]
      exact hend
    · obtain ⟨hfaults', hend⟩ := gone_run hgone hrest
      exact ⟨hfaults.trans hfaults', Or.inr ⟨List.mem_cons_self, hend⟩⟩

def answering (setup : ℤ) : Answers where
  get_function_instance _ := 0
  get_function _ := 0
  add_function _ := 0
  gserial_init_port _ _ := 0
  gport_setup := setup

def twoPorts : Serial :=
  { initial with config := true, serial_transports := ['t', 't', 'y', ',', 's', 'm', 'd'] }

theorem exec_twoPorts : exec step initial
    [.init true, .transports_store ['t', 't', 'y', ',', 's', 'm', 'd']] = some twoPorts := rfl

section Retries

def Opens (a : Answers) : Prop := ∀ i port, a.gserial_init_port i port = 0

structure Grants (a : Answers) : Prop where
  opens : Opens a
  setup : a.gport_setup = 0
  gives : ∀ k, a.Gives 0 k

def Event.isBind : Event → Bool
  | .bind _ => true
  | _ => false

def Attempt (e : Event) : Prop := e = .unbind ∨ ∃ a, e = .bind a ∧ Opens a

def countedBehind (n j : ℕ) : ℕ :=
  j * min n MAX_SERIAL_INSTANCES + if n = 1 ∧ 0 < j then 1 else 0

theorem length_portNames (xport_name : Option (List Char)) (names tbs : List (List Char)) :
    (portNames xport_name names tbs).length = names.length := by
  induction names generalizing xport_name tbs with
  | nil => rfl
  | cons name names ih =>
    cases tbs with
    | nil => exact congrArg (· + 1) (ih xport_name [])
    | cons tb tbs => exact congrArg (· + 1) (ih (some tb) tbs)

theorem names_pos (s : Serial) : 0 < s.names.length := by
  unfold Serial.names
  rw [length_portNames]
  exact List.length_pos_iff.mpr (fields_ne_nil _ _)

variable {s : Serial} {a : Answers} {n j : ℕ}

theorem opening_opens (ha : Opens a) : opening s a =
    if s.names.length < MAX_SERIAL_INSTANCES then (s.names.length, none)
    else (MAX_SERIAL_INSTANCES, some 0) := by
  rw [opening, init_ports_open (by decide) ha, Nat.zero_add]

/-- One more attempt. -/
theorem counted_succ (ha : Opens a) (hn : s.names.length = n)
    (hon : s.instances_on = countedBehind n j) : counted s a = countedBehind n (j + 1) := by
  have hpos := names_pos s
  rw [hn] at hpos
  have hsecond : secondPort s a = 0 := ha _ _
  have hsucc : (j + 1) * min n MAX_SERIAL_INSTANCES =
      j * min n MAX_SERIAL_INSTANCES + min n MAX_SERIAL_INSTANCES := Nat.succ_mul _ _
  simp only [counted, opening_opens ha, hn, hsecond, hon, countedBehind, and_true, hsucc]
  by_cases hlt : n < MAX_SERIAL_INSTANCES
  · rw [if_pos hlt, Nat.min_eq_left hlt.le]
    rcases Nat.eq_zero_or_pos j with rfl | hj
    · by_cases hone : n = 1
      · simp [hone]
      · simp [hone]
    · have hmul : n ≤ j * n := Nat.le_mul_of_pos_left n hj
      by_cases hone : n = 1
      · subst hone
        simp [hj]
      · simp [hone]
        omega
  · have hmax : n ≠ 1 := by
      rintro rfl
      exact hlt (by decide)
    rw [if_neg hlt, Nat.min_eq_right (not_lt.mp hlt)]
    simp [hmax]

/-- Attempts that fail leave all their ports counted. -/
theorem trying_run {t : Serial} {es : List Event} (hs : Trying s) (hconfig : s.config = true)
    (hn : s.names.length = n) (hon : s.instances_on = countedBehind n j)
    (hes : ∀ e ∈ es, Attempt e) (hrun : exec step s es = some t)
    (hinit : t.serial_initialized = false) (hc : t.crashed = false) :
    Trying t ∧ t.config = true ∧ t.names.length = n ∧
      t.instances_on = countedBehind n (j + es.countP Event.isBind) := by
  induction es generalizing s j with
  | nil =>
    obtain rfl : s = t := Option.some.inj hrun
    exact ⟨hs, hconfig, hn, hon⟩
  | cons e es ih =>
    obtain ⟨u, hu, hrest⟩ := (exec_cons_eq_some step).mp hrun
    have htail : ∀ e ∈ es, Attempt e := fun e he => hes e (List.mem_cons_of_mem _ he)
    rcases hes e List.mem_cons_self with rfl | ⟨a, rfl, ha⟩
    · rcases step_cases hu with
        ⟨_, ⟨⟩, -⟩ | ⟨_, ⟨⟩, -⟩ | ⟨_, ⟨⟩, -⟩ | ⟨_, ⟨⟩, -⟩ | ⟨-, -, rfl⟩ | ⟨⟨⟩, -⟩
      obtain ⟨hi, hcrashed, ⟨hfs, his⟩, -⟩ := hs
      exact ih (s := android_unbind_enabled_function s) ⟨hi, hcrashed, ⟨hfs, his⟩, rfl⟩ hconfig hn
        hon htail hrest
    · rcases step_cases hu with
        ⟨_, ⟨⟩, -⟩ | ⟨_, ⟨⟩, -⟩ | ⟨_, ⟨⟩, -⟩ | ⟨_, ⟨⟩, -, hb, rfl⟩ | ⟨⟨⟩, -⟩ | ⟨⟨⟩, -⟩
      have hcount := counted_succ ha hn hon
      have hnot : ¬ Taken s a := by
        intro htaken
        rcases Nat.lt_or_ge MAX_SERIAL_INSTANCES (counted s a) with hlt | hle
        · have hcrashed := attempt_overrun hs htaken hlt
          cases es with
          | nil =>
            rw [Option.some.inj hrest, hc] at hcrashed
            exact absurd hcrashed (by simp)
          | cons e' es' =>
            obtain ⟨v, hv, -⟩ := (exec_cons_eq_some step).mp hrest
            rw [not_crashed hv] at hcrashed
            exact absurd hcrashed (by simp)
        · have hserving := (attempt_serving hs htaken hconfig hle).1
          rcases (serving_run hserving hrest).2 with ⟨-, ht⟩ | ⟨-, ht⟩
          · rw [ht.initialized] at hinit
            exact absurd hinit (by simp)
          · rw [ht.initialized] at hinit
            exact absurd hinit (by simp)
      obtain ⟨htrying, hon', hnames, hconfig', -⟩ := attempt_failed hs hnot
      have hend := ih (j := j + 1) htrying (hconfig'.trans hconfig) (by rw [hnames, hn])
        (hon'.trans hcount) htail hrest
      rw [List.countP_cons_of_pos (by rfl), show j + (es.countP Event.isBind + 1) =
        j + 1 + es.countP Event.isBind by omega]
      exact hend

/-- Retries. After any number of failed attempts that opened all their ports, an attempt
all of whose calls succeed takes the instances of all of them together: with fewer
than four names it crashes exactly when these are more than four, and otherwise
serves that many. With four names or more it adds no port, and reports success. -/
theorem retries_overrun {s t u : Serial} {a : Answers} {es fs : List Event} {k : ℕ}
    (hfresh : exec step initial fs = some s) (hconfig : s.config = true)
    (huninit : s.serial_initialized = false) (hon : s.instances_on = 0)
    (hes : ∀ e ∈ es, Attempt e) (hrun : exec step s es = some t)
    (hfailed : t.serial_initialized = false) (ha : Grants a) (hu : step t (.bind a) = some u)
    (hk : k = (es.countP Event.isBind + 1) * s.names.length + if s.names.length = 1 then 1 else 0) :
    (s.names.length < MAX_SERIAL_INSTANCES →
      (u.crashed = true ↔ MAX_SERIAL_INSTANCES < k) ∧
      (k ≤ MAX_SERIAL_INSTANCES → u.serial_initialized = true ∧ u.instances_on = k ∧
        u.functions.live.card = k ∧ u.instances.live.card = k)) ∧
    (MAX_SERIAL_INSTANCES ≤ s.names.length →
      u.crashed = false ∧ u.serial_initialized = false ∧ u.bound = true ∧ u.added = []) := by
  have htc := not_crashed hu
  have hsc : s.crashed = false := by
    cases es with
    | nil =>
      rw [Option.some.inj hrun]
      exact htc
    | cons e es =>
      obtain ⟨v, hv, -⟩ := (exec_cons_eq_some step).mp hrun
      exact not_crashed hv
  have hs : Trying s := by
    rcases lives_run hfresh hsc with hs | ⟨_, _, _, hs⟩ | hs
    · exact hs
    · rw [hs.initialized] at huninit
      exact absurd huninit (by simp)
    · rw [hs.initialized] at huninit
      exact absurd huninit (by simp)
  obtain ⟨ht, hconfig', hn, hon'⟩ := trying_run (n := s.names.length) (j := 0) hs hconfig rfl
    (by rw [hon]; simp [countedBehind]) hes hrun hfailed htc
  rw [Nat.zero_add] at hon'
  rcases step_cases hu with
    ⟨_, ⟨⟩, -⟩ | ⟨_, ⟨⟩, -⟩ | ⟨_, ⟨⟩, -⟩ | ⟨_, ⟨⟩, -, -, rfl⟩ | ⟨⟨⟩, -⟩ | ⟨⟨⟩, -⟩
  have hcount := counted_succ ha.opens hn hon'
  constructor
  · intro hlt
    have hopening : opening t a = (s.names.length, none) := by
      rw [opening_opens ha.opens, hn, if_pos hlt]
    have htaken : Taken t a :=
      ⟨⟨by rw [hopening], fun _ => ha.opens _ _, ha.setup⟩, ha.gives _⟩
    have hcounted : counted t a = k := by
      rw [hcount, hk, countedBehind, Nat.min_eq_left hlt.le]
      simp
    rcases Nat.lt_or_ge MAX_SERIAL_INSTANCES k with hmax | hmax
    · have hcrashed := attempt_overrun ht htaken (by rw [hcounted]; exact hmax)
      exact ⟨iff_of_true hcrashed hmax, fun h => absurd h (not_le.mpr hmax)⟩
    · obtain ⟨hserving, -⟩ := attempt_serving ht htaken hconfig' (by rw [hcounted]; exact hmax)
      rw [hcounted] at hserving
      refine ⟨iff_of_false ?_ (not_lt.mpr hmax),
        fun _ => ⟨hserving.initialized, hserving.on, ?_, ?_⟩⟩
      · rw [hserving.crashed]
        simp
      · rw [hserving.held.functions, Nat.card_Ico, Nat.add_sub_cancel_left]
      · rw [hserving.held.instances, Nat.card_Ico, Nat.add_sub_cancel_left]
  · intro hle
    have hopening : opening t a = (MAX_SERIAL_INSTANCES, some 0) := by
      rw [opening_opens ha.opens, hn, if_neg (not_lt.mpr hle)]
    have hnot : ¬ Taken t a := by
      intro htaken
      have hopened := htaken.1.opened
      rw [hopening] at hopened
      exact absurd hopened (by simp)
    obtain ⟨htrying, -, -, -, hbound⟩ := attempt_failed ht hnot
    exact ⟨htrying.crashed, htrying.initialized, hbound.mpr (by rw [hopening]), htrying.added⟩

/-- The third attempt with two ports. -/
theorem retries_overrun_third : ∃ t, exec step twoPorts
    [.bind (answering (-1)), .bind (answering (-1)), .bind (answering 0)] = some t ∧
      t.crashed = true := by
  obtain ⟨s, hs, hfailed, t, ht⟩ : ∃ s,
      exec step twoPorts [.bind (answering (-1)), .bind (answering (-1))] = some s ∧
      s.serial_initialized = false ∧ ∃ t, step s (.bind (answering 0)) = some t :=
    ⟨_, rfl, rfl, _, rfl⟩
  have hattempts : ∀ e ∈ [Event.bind (answering (-1)), .bind (answering (-1))], Attempt e := by
    intro e he
    rw [List.mem_pair] at he
    rcases he with rfl | rfl
    · exact Or.inr ⟨_, rfl, fun _ _ => rfl⟩
    · exact Or.inr ⟨_, rfl, fun _ _ => rfl⟩
  have hlen : twoPorts.names.length = 2 := rfl
  obtain ⟨hfew, -⟩ := retries_overrun (k := 6) exec_twoPorts rfl rfl rfl hattempts hs hfailed
    ⟨fun _ _ => rfl, rfl, fun _ _ _ _ => ⟨rfl, rfl⟩⟩ ht (by rw [hlen]; rfl)
  refine ⟨t, ?_, (hfew (by rw [hlen]; decide)).1.mpr (by decide)⟩
  exact (exec_append step hs).trans ((exec_cons_eq_some step).mpr ⟨t, ht, rfl⟩)

end Retries

end Fixed.SerialPorts
