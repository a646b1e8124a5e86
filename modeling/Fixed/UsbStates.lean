import Fixed.AndroidDevice
import Mathlib.Algebra.Ring.Int.Defs
import Mathlib.Algebra.Ring.Nat

/-!
How the devices of `android.c` follow the state of the bus. The callbacks of the
composite driver and of the controller note what happened and schedule the work of
the device, and the work tells user space about it and votes for a latency. The
work of a device and the callbacks run in any order; the work is five steps, of which
the second is the part under the lock. The work of all devices shares the static
variables. The composite driver and the latency requests are outside this repository,
so what the kernel does to a request is a parameter.
-/
namespace Fixed.UsbStates

open AndroidDevice CString

inductive DeviceState
  | DISCONNECTED
  | CONNECTED
  | CONFIGURED
  | SUSPENDED
  | RESUMED
deriving DecidableEq

inductive PmQosState
  | NO_USB_VOTE
  | WFI
  | IDLE_PC
  | IDLE_PC_RPM
deriving DecidableEq

inductive Phase
  | lock
  | vote
  | check
  | notify
deriving DecidableEq

structure Running where
  phase : Phase
  uevent_envp : Option DeviceState
  pm_qos_vote : ℤ
deriving DecidableEq

structure Request where
  set_configuration : Bool
  prev_configured : Bool
deriving DecidableEq

structure UsbDev (R : Type*) where
  connected : Bool
  sw_connected : Bool
  suspended : Bool
  sw_suspended : Bool
  /-- `cdev->config` is set. -/
  config : Bool
  request : Option Request
  /-- `work` is scheduled. -/
  work : Bool
  running : Option Running
  /-- The events sent, the last one at the end. -/
  sent : List DeviceState
  pm_qos : Text
  curr_pm_qos_state : PmQosState
  /-- The delay in seconds of `pm_qos_work`, while it is scheduled. -/
  pm_qos_work : Option ℕ
  pm_qos_req_dma : R
  up_pm_qos_sample_sec : ℕ
  up_pm_qos_threshold : ℕ
  down_pm_qos_sample_sec : ℕ
  down_pm_qos_threshold : ℕ
  idle_pc_rpm_no_int_secs : ℕ

structure Usb (ι R : Type*) where
  dev : ι → UsbDev R
  last_uevent : DeviceState
  next_state : DeviceState
  last_vote : ℤ
  no_int_sample_count : ℕ
  /-- The kernel has warned of the use of a request. -/
  warned : Bool
  /-- A division by zero. -/
  crashed : Bool

structure Latencies where
  /-- The first of them is not 0. -/
  given : Bool
  pm_qos_latency : PmQosState → ℤ

/-- The platform data of each device, and the latency requests of the kernel, which hold an
`R`. What is done to a request leaves it in some state, with or without a warning. -/
structure Platform (ι R : Type*) where
  latencies : ι → Latencies
  zeroed : R
  pm_qos_request_active : R → Bool
  pm_qos_add_request : ℤ → R → R × Bool
  pm_qos_update_request : ℤ → R → R × Bool
  pm_qos_remove_request : R → R × Bool

/-- A request is active from its addition to its removal, and the kernel warns of the
addition of an active request, and of the update or removal of one that is not. -/
structure Platform.Documented {ι R : Type*} (p : Platform ι R) : Prop where
  zeroed : p.pm_qos_request_active p.zeroed = false
  add : ∀ value r, p.pm_qos_request_active (p.pm_qos_add_request value r).1 = true ∧
    (p.pm_qos_add_request value r).2 = p.pm_qos_request_active r
  update : ∀ value r,
    p.pm_qos_request_active (p.pm_qos_update_request value r).1 = p.pm_qos_request_active r ∧
      (p.pm_qos_update_request value r).2 = !p.pm_qos_request_active r
  remove : ∀ r, p.pm_qos_request_active (p.pm_qos_remove_request r).1 = false ∧
    (p.pm_qos_remove_request r).2 = !p.pm_qos_request_active r

def PM_QOS_DEFAULT_VALUE : ℤ := -1

inductive Attribute
  | up_pm_qos_sample_sec
  | up_pm_qos_threshold
  | down_pm_qos_sample_sec
  | down_pm_qos_threshold
  | idle_pc_rpm_no_int_secs

variable {ι R : Type*} [DecidableEq ι]

def Usb.setDev (s : Usb ι R) (d : ι) (g : UsbDev R → UsbDev R) : Usb ι R :=
  { s with dev := Function.update s.dev d (g (s.dev d)) }

abbrev Usb.setRunning (s : Usb ι R) (d : ι) (running : Option Running) : Usb ι R :=
  s.setDev d fun dev => { dev with running := running }

def Usb.request (s : Usb ι R) (d : ι) (call : R → R × Bool) : Usb ι R :=
  { s with warned := s.warned || (call (s.dev d).pm_qos_req_dma).2 }.setDev d fun dev =>
    { dev with pm_qos_req_dma := (call dev.pm_qos_req_dma).1 }

section Qos

variable (p : Platform ι R)

def android_pm_qos_update_latency (d : ι) (latency : ℤ) (s : Usb ι R) : Usb ι R :=
  if latency = s.last_vote ∨ latency = 0 then s
  else if latency = PM_QOS_DEFAULT_VALUE then
    let s := s.request d (p.pm_qos_update_request latency)
    { s with last_vote := latency }.request d p.pm_qos_remove_request
  else
    let s :=
      if p.pm_qos_request_active (s.dev d).pm_qos_req_dma then s
      else s.request d (p.pm_qos_add_request PM_QOS_DEFAULT_VALUE)
    let s := s.request d (p.pm_qos_update_request latency)
    { s with last_vote := latency }

/-- What one sample leads to: the next state, the next delay and the samples without
interrupts, or `none` for a division by zero. -/
def nextSample (dev : UsbDev R) (curr_sample_int_count no_int_sample_count : ℕ) :
    Option (PmQosState × Option ℕ × ℕ) :=
  match dev.curr_pm_qos_state with
  | .WFI =>
    if curr_sample_int_count ≤ dev.down_pm_qos_threshold then
      some (.IDLE_PC, some dev.up_pm_qos_sample_sec, 0)
    else some (.WFI, some dev.down_pm_qos_sample_sec, no_int_sample_count)
  | .IDLE_PC =>
    let no_int_sample_count :=
      if curr_sample_int_count = 0 then (no_int_sample_count + 1) % 2 ^ 32 else 0
    if dev.up_pm_qos_threshold ≤ curr_sample_int_count then
      some (.WFI, some dev.down_pm_qos_sample_sec, no_int_sample_count)
    else if dev.up_pm_qos_sample_sec = 0 then none
    else if dev.idle_pc_rpm_no_int_secs / dev.up_pm_qos_sample_sec ≤ no_int_sample_count then
      some (.IDLE_PC_RPM, some dev.up_pm_qos_sample_sec, no_int_sample_count)
    else some (.IDLE_PC, some dev.up_pm_qos_sample_sec, no_int_sample_count)
  | .IDLE_PC_RPM =>
    if curr_sample_int_count ≠ 0 then some (.WFI, some dev.down_pm_qos_sample_sec, 0)
    else some (.IDLE_PC_RPM, some (2 * dev.up_pm_qos_sample_sec % 2 ^ 32), no_int_sample_count)
  | .NO_USB_VOTE => some (.NO_USB_VOTE, none, no_int_sample_count)

def android_pm_qos_work (d : ι) (curr_sample_int_count : ℕ) (s : Usb ι R) : Usb ι R :=
  match nextSample (s.dev d) curr_sample_int_count s.no_int_sample_count with
  | none => { s with crashed := true }
  | some (next_state, next_sample_delay_sec, no_int_sample_count) =>
    let changed := next_state ≠ (s.dev d).curr_pm_qos_state
    let s := { s with no_int_sample_count := no_int_sample_count }.setDev d fun dev =>
      { dev with curr_pm_qos_state := next_state, pm_qos_work := next_sample_delay_sec }
    if changed then
      android_pm_qos_update_latency p d ((p.latencies d).pm_qos_latency next_state) s
    else s

end Qos

section Work

def isLow (pm_qos : Text) : Bool := pm_qos.take 3 = ['l', 'o', 'w']

def snapshot (dev : UsbDev R) : Option DeviceState × ℤ :=
  if dev.suspended ≠ dev.sw_suspended ∧ dev.config then
    (some (if dev.suspended then .SUSPENDED else .RESUMED),
      if isLow dev.pm_qos then -1 else if dev.suspended then 0 else 1)
  else if dev.config then (some .CONFIGURED, -1)
  else if dev.connected ≠ dev.sw_connected then
    (some (if dev.connected then .CONNECTED else .DISCONNECTED),
      if dev.connected ∧ ¬ isLow dev.pm_qos then 1
      else if ¬ dev.connected ∨ isLow dev.pm_qos then 0
      else -1)
  else (none, -1)

def workBegin (d : ι) (s : Usb ι R) : Usb ι R :=
  s.setDev d fun dev => { dev with work := false, running := some ⟨.lock, none, -1⟩ }

def workLocked (d : ι) (s : Usb ι R) : Usb ι R :=
  let (uevent_envp, pm_qos_vote) := snapshot (s.dev d)
  { s with next_state := uevent_envp.getD s.next_state }.setDev d fun dev =>
    { dev with
      sw_connected := dev.connected
      sw_suspended := dev.suspended
      running := some ⟨.vote, uevent_envp, pm_qos_vote⟩ }

def vote (p : Platform ι R) (d : ι) (pm_qos_vote : ℤ) (s : Usb ι R) : Usb ι R :=
  if (p.latencies d).given ∧ pm_qos_vote = 1 then
    (android_pm_qos_update_latency p d ((p.latencies d).pm_qos_latency .WFI) s).setDev d fun dev =>
      { dev with curr_pm_qos_state := .WFI, pm_qos_work := some dev.down_pm_qos_sample_sec }
  else if (p.latencies d).given ∧ pm_qos_vote = 0 then
    (android_pm_qos_update_latency p d PM_QOS_DEFAULT_VALUE s).setDev d fun dev =>
      { dev with curr_pm_qos_state := .NO_USB_VOTE, pm_qos_work := none }
  else s

def workVote (p : Platform ι R) (d : ι) (r : Running) (s : Usb ι R) : Usb ι R :=
  (vote p d r.pm_qos_vote s).setRunning d (some { r with phase := .check })

def missed (last_uevent : DeviceState) (uevent_envp : Option DeviceState) : Bool :=
  uevent_envp = some .CONNECTED ∧ last_uevent ≠ .DISCONNECTED ∨
    uevent_envp = some .CONFIGURED ∧ last_uevent = .CONFIGURED

def workCheck (d : ι) (r : Running) (s : Usb ι R) : Usb ι R :=
  s.setDev d fun dev => { dev with
    sent := if missed s.last_uevent r.uevent_envp then dev.sent ++ [.DISCONNECTED] else dev.sent
    running := some { r with phase := .notify } }

def workNotify (d : ι) (r : Running) (s : Usb ι R) : Usb ι R :=
  let s :=
    match r.uevent_envp with
    | some uevent_envp =>
      if s.next_state ≠ DeviceState.SUSPENDED ∧ s.next_state ≠ DeviceState.RESUMED then
        { s with last_uevent := s.next_state }.setDev d fun dev =>
          { dev with sent := dev.sent ++ [uevent_envp] }
      else s
    | none => s
  s.setRunning d none

def android_work (p : Platform ι R) (d : ι) (s : Usb ι R) : Option (Usb ι R) :=
  match (s.dev d).running with
  | none => if (s.dev d).work then some (workBegin d s) else none
  | some r =>
    match r.phase with
    | .lock => some (workLocked d s)
    | .vote => some (workVote p d r s)
    | .check => some (workCheck d r s)
    | .notify => some (workNotify d r s)

end Work

section Callbacks

/-- `android_setup` up to the lock: the composite driver leaves `config`. -/
def setupHandle (set_configuration config : Bool) (dev : UsbDev R) : UsbDev R :=
  { dev with config := config, request := some ⟨set_configuration, dev.config⟩ }

def setupLocked (r : Request) (dev : UsbDev R) : UsbDev R :=
  let dev := { dev with request := none }
  if dev.connected = false then { dev with connected := true, work := true }
  else if r.set_configuration ∧ dev.config then
    if r.prev_configured then dev else { dev with work := true }
  else dev

/-- `android_disconnect`, where the composite driver has left `config`. -/
def android_disconnect (config : Bool) (dev : UsbDev R) : UsbDev R :=
  { dev with config := config, connected := false, work := true }

def android_suspend (dev : UsbDev R) : UsbDev R :=
  if dev.suspended then dev else { dev with suspended := true, work := true }

def android_resume (dev : UsbDev R) : UsbDev R :=
  if dev.suspended then { dev with suspended := false, work := true } else dev

/-- What a failing `android_enable` makes `enable_store` do. -/
def enableFailed (dev : UsbDev R) : UsbDev R := { dev with connected := false }

def pm_qos_store (buff : Text) (dev : UsbDev R) : UsbDev R := { dev with pm_qos := strlcpy buff 5 }

def attribute_store (field : Attribute) (value : ℕ) (dev : UsbDev R) : UsbDev R :=
  match field with
  | .up_pm_qos_sample_sec => { dev with up_pm_qos_sample_sec := value }
  | .up_pm_qos_threshold => { dev with up_pm_qos_threshold := value }
  | .down_pm_qos_sample_sec => { dev with down_pm_qos_sample_sec := value }
  | .down_pm_qos_threshold => { dev with down_pm_qos_threshold := value }
  | .idle_pc_rpm_no_int_secs => { dev with idle_pc_rpm_no_int_secs := value }

def state_show (dev : UsbDev R) : DeviceState :=
  if dev.config then .CONFIGURED else if dev.connected then .CONNECTED else .DISCONNECTED

end Callbacks

inductive Callback
  /-- A control request reaches the composite driver. -/
  | setup (set_configuration config : Bool)
  | disconnect (config : Bool)
  | suspend
  | resume
  /-- The composite driver sets `config` of its own accord. -/
  | config (config : Bool)
  | enable_failed
  | pm_qos_store (buff : Text)
  | attribute_store (field : Attribute) (value : ℕ)

def Callback.isSetup : Callback → Bool
  | .setup _ _ => true
  | _ => false

def callback (c : Callback) (dev : UsbDev R) : UsbDev R :=
  match c with
  | .setup set_configuration config => setupHandle set_configuration config dev
  | .disconnect config => android_disconnect config dev
  | .suspend => android_suspend dev
  | .resume => android_resume dev
  | .config config => { dev with config := config }
  | .enable_failed => enableFailed dev
  | .pm_qos_store buff => UsbStates.pm_qos_store buff dev
  | .attribute_store field value => UsbStates.attribute_store field value dev

inductive Event (ι : Type*)
  | callback (d : ι) (c : Callback)
  /-- The control request leaves `android_setup`. -/
  | setupDone (d : ι)
  | work (d : ι)
  | pm_qos_work (d : ι) (curr_sample_int_count : ℕ)

/-- One control request is handled at a time. -/
def step (p : Platform ι R) (s : Usb ι R) (e : Event ι) : Option (Usb ι R) :=
  if s.crashed then none
  else
    match e with
    | .callback d c =>
      if c.isSetup ∧ (s.dev d).request ≠ none then none else some (s.setDev d (callback c))
    | .setupDone d => (s.dev d).request.map fun r => s.setDev d (setupLocked r)
    | .work d => android_work p d s
    | .pm_qos_work d curr_sample_int_count =>
      if (s.dev d).pm_qos_work = none then none
      else some (android_pm_qos_work p d curr_sample_int_count s)

def UsbDev.initial (p : Platform ι R) (d : ι) : UsbDev R where
  connected := false
  sw_connected := false
  suspended := false
  sw_suspended := false
  config := false
  request := none
  work := false
  running := none
  sent := []
  pm_qos := ['h', 'i', 'g', 'h']
  curr_pm_qos_state := .NO_USB_VOTE
  pm_qos_work := none
  pm_qos_req_dma := p.zeroed
  up_pm_qos_sample_sec := if (p.latencies d).given then 3 else 0
  up_pm_qos_threshold := if (p.latencies d).given then 70 else 0
  down_pm_qos_sample_sec := if (p.latencies d).given then 5 else 0
  down_pm_qos_threshold := if (p.latencies d).given then 100 else 0
  idle_pc_rpm_no_int_secs := if (p.latencies d).given then 10 else 0

def initial (p : Platform ι R) : Usb ι R where
  dev := .initial p
  last_uevent := .DISCONNECTED
  next_state := .DISCONNECTED
  last_vote := -1
  no_int_sample_count := 0
  warned := false
  crashed := false

section Effects

variable {p : Platform ι R} {s t u : Usb ι R} {d : ι}

@[simp] theorem setDev_same (s : Usb ι R) (d : ι) (g : UsbDev R → UsbDev R) :
    (s.setDev d g).dev d = g (s.dev d) := Function.update_self _ _ _

theorem setDev_of_ne (s : Usb ι R) {d e : ι} (h : e ≠ d) (g : UsbDev R → UsbDev R) :
    (s.setDev d g).dev e = s.dev e := Function.update_of_ne h _ _

theorem request_request (s : Usb ι R) (d : ι) (c c' : R → R × Bool) :
    (s.request d c).request d c' =
      s.request d fun r => ((c' (c r).1).1, (c r).2 || (c' (c r).1).2) := by
  simp [Usb.request, Usb.setDev, Bool.or_assoc]

/-- A change of the latency is calls that concern the request; used as documented they
leave it active or not, and warn only when there was none to remove. -/
theorem update_latency_calls (p : Platform ι R) (d : ι) {latency : ℤ} (s : Usb ι R)
    (h : ¬ (latency = s.last_vote ∨ latency = 0)) : ∃ call : R → R × Bool,
      android_pm_qos_update_latency p d latency s =
        { s with last_vote := latency }.request d call ∧
      (p.Documented →
        p.pm_qos_request_active (call (s.dev d).pm_qos_req_dma).1 =
            decide (latency ≠ PM_QOS_DEFAULT_VALUE) ∧
          (call (s.dev d).pm_qos_req_dma).2 = (decide (latency = PM_QOS_DEFAULT_VALUE) &&
            !p.pm_qos_request_active (s.dev d).pm_qos_req_dma)) := by
  unfold android_pm_qos_update_latency
  rw [if_neg h]
  by_cases hdefault : latency = PM_QOS_DEFAULT_VALUE
  · rw [if_pos hdefault]
    refine ⟨_, request_request { s with last_vote := latency } d _ _, ?_⟩
    intro hp
    rw [(hp.remove _).1, (hp.remove _).2, (hp.update latency _).1, (hp.update latency _).2]
    simp [hdefault]
  · rw [if_neg hdefault]
    by_cases hactive : p.pm_qos_request_active (s.dev d).pm_qos_req_dma = true
    · rw [if_pos hactive]
      refine ⟨p.pm_qos_update_request latency, rfl, ?_⟩
      intro hp
      rw [(hp.update latency _).1, (hp.update latency _).2, hactive]
      simp [hdefault]
    · rw [if_neg hactive]
      refine ⟨_, request_request { s with last_vote := latency } d _ _, ?_⟩
      intro hp
      rw [(hp.update latency _).1, (hp.update latency _).2, (hp.add _ _).1, (hp.add _ _).2]
      simp [hdefault, hactive]

/-- The latency of a device is voted for. -/
theorem android_pm_qos_update_latency_eq (p : Platform ι R) (d : ι) (latency : ℤ)
    (s : Usb ι R) : ∃ r w,
      android_pm_qos_update_latency p d latency s =
        (if latency = s.last_vote ∨ latency = 0 then s
        else
          { s with last_vote := latency, warned := s.warned || w }.setDev d fun dev =>
            { dev with pm_qos_req_dma := r }) ∧
      (p.Documented → ¬ (latency = s.last_vote ∨ latency = 0) →
        p.pm_qos_request_active r = decide (latency ≠ PM_QOS_DEFAULT_VALUE) ∧
          w = (decide (latency = PM_QOS_DEFAULT_VALUE) &&
            !p.pm_qos_request_active (s.dev d).pm_qos_req_dma)) := by
  by_cases h : latency = s.last_vote ∨ latency = 0
  · refine ⟨(s.dev d).pm_qos_req_dma, false, ?_, fun _ hnot => absurd h hnot⟩
    rw [if_pos h]
    exact if_pos h
  · obtain ⟨call, heq, hcall⟩ := update_latency_calls p d s h
    refine ⟨(call (s.dev d).pm_qos_req_dma).1, (call (s.dev d).pm_qos_req_dma).2, ?_,
      fun hp _ => hcall hp⟩
    rw [if_neg h, heq]
    rfl

structure SameBus (s t : Usb ι R) : Prop where
  dev : ∀ e, t.dev e = { s.dev e with
    curr_pm_qos_state := (t.dev e).curr_pm_qos_state
    pm_qos_work := (t.dev e).pm_qos_work
    pm_qos_req_dma := (t.dev e).pm_qos_req_dma }
  last_uevent : t.last_uevent = s.last_uevent
  next_state : t.next_state = s.next_state

omit [DecidableEq ι] in
theorem SameBus.refl (s : Usb ι R) : SameBus s s := ⟨fun _ => rfl, rfl, rfl⟩

omit [DecidableEq ι] in
theorem SameBus.trans (h : SameBus s t) (h' : SameBus t u) : SameBus s u where
  dev e := by
    rw [h'.dev e, h.dev e]
  last_uevent := h'.last_uevent.trans h.last_uevent
  next_state := h'.next_state.trans h.next_state

theorem sameBus_setDev (s : Usb ι R) (d : ι) {g : UsbDev R → UsbDev R}
    (h : ∀ dev, g dev = { dev with
      curr_pm_qos_state := (g dev).curr_pm_qos_state
      pm_qos_work := (g dev).pm_qos_work
      pm_qos_req_dma := (g dev).pm_qos_req_dma }) : SameBus s (s.setDev d g) where
  dev e := by
    by_cases he : e = d
    · rw [he, setDev_same]
      exact h (s.dev d)
    · rw [setDev_of_ne s he]
  last_uevent := rfl
  next_state := rfl

theorem sameBus_update_latency (p : Platform ι R) (d : ι) (latency : ℤ) (s : Usb ι R) :
    SameBus s (android_pm_qos_update_latency p d latency s) := by
  obtain ⟨r, w, heq, -⟩ := android_pm_qos_update_latency_eq p d latency s
  rw [heq]
  split_ifs
  · exact .refl s
  · have hvote : SameBus s { s with last_vote := latency, warned := s.warned || w } :=
      ⟨fun _ => rfl, rfl, rfl⟩
    exact hvote.trans (sameBus_setDev _ d fun _ => rfl)

theorem sameBus_pm_qos_work (d : ι) (curr_sample_int_count : ℕ) (s : Usb ι R) :
    SameBus s (android_pm_qos_work p d curr_sample_int_count s) := by
  unfold android_pm_qos_work
  split
  · exact ⟨fun _ => rfl, rfl, rfl⟩
  · rename_i next_state delay no_int_sample_count _
    have hcount : SameBus s { s with no_int_sample_count := no_int_sample_count } :=
      ⟨fun _ => rfl, rfl, rfl⟩
    have hstate := hcount.trans (sameBus_setDev _ d
      (g := fun dev => { dev with curr_pm_qos_state := next_state, pm_qos_work := delay })
      fun _ => rfl)
    dsimp only
    split_ifs
    · exact hstate.trans (sameBus_update_latency p d _ _)
    · exact hstate

theorem sameBus_vote (d : ι) (pm_qos_vote : ℤ) (s : Usb ι R) :
    SameBus s (vote p d pm_qos_vote s) := by
  unfold vote
  split_ifs
  · exact (sameBus_update_latency p d _ s).trans (sameBus_setDev _ d fun _ => rfl)
  · exact (sameBus_update_latency p d _ s).trans (sameBus_setDev _ d fun _ => rfl)
  · exact .refl s

theorem step_callback {c : Callback} (h : step p s (.callback d c) = some t) :
    t = s.setDev d (callback c) ∧ (c.isSetup = true → (s.dev d).request = none) := by
  unfold step at h
  split_ifs at h
  dsimp only at h
  split_ifs at h with hrequest
  refine ⟨(Option.some.inj h).symm, ?_⟩
  intro hsetup
  by_contra hsome
  exact hrequest ⟨hsetup, hsome⟩

end Effects

end Fixed.UsbStates
