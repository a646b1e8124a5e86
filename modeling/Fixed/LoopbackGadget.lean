import Mathlib.Logic.Function.Basic
import Mathlib.Data.List.Basic
import Mathlib.Data.Int.Basic
import Mathlib.Tactic.Common

/-!
The loopback gadget function `f_loopback.c` with its two endpoints. The USB
core is not part of this repository: what `config_ep_by_speed`,
`usb_ep_enable`, the allocation and `usb_ep_queue` answer is decided outside,
a disabled endpoint refuses requests, and `usb_ep_disable` gives every queued
request back through its completion callback. Whether `disable_endpoints`
clears `driver_data` is a parameter.
-/
namespace Fixed.LoopbackGadget

inductive Ep
  | in_ep
  | out_ep
deriving DecidableEq, Repr

inductive DriverData
  | null
  /-- Claimed by `loopback_bind`. -/
  | cdev
  | loop
deriving DecidableEq, Repr

inductive Place
  | queued (ep : Ep)
  | held
  | freed
deriving DecidableEq, Repr

/-- A request, with the endpoint it was allocated for; its length is that of
its buffer. -/
structure Request where
  ep : Ep
  buf : List UInt8
  place : Place

structure Gadget where
  driver_data : Ep → DriverData
  enabled : Ep → Bool
  /-- All requests ever allocated, in this order. -/
  requests : List Request
  /-- The static counter of `loopback_complete`. -/
  c : UInt8
  /-- The buffers printed with `%s`. -/
  printed : List (List UInt8)
  /-- The driver went through a pointer that is not one to its data. -/
  crashed : Bool

def ESHUTDOWN : ℤ := 108

def Gadget.modify (s : Gadget) (i : ℕ) (f : Request → Request) : Gadget :=
  { s with requests := s.requests.modify i f }

def usb_ep_queue (s : Gadget) (ep : Ep) (i : ℕ) (answer : ℤ) : ℤ × Gadget :=
  if s.enabled ep then
    if answer = 0 then (0, s.modify i fun r => { r with place := .queued ep }) else (answer, s)
  else (-ESHUTDOWN, s)

def string (buf : List UInt8) : List UInt8 := buf.takeWhile (· ≠ 0)

/-- The completion callback; neither the status nor the result of queueing
again is looked at. -/
def loopback_complete (s : Gadget) (ep : Ep) (i : ℕ) (answer : ℤ) : Gadget :=
  match s.driver_data ep with
  | .loop =>
    match ep with
    | .out_ep =>
      let s := { s with c := s.c + 1 }
      let s := s.modify i fun r => { r with buf := List.replicate r.buf.length s.c }
      (usb_ep_queue s ep i answer).2
    | .in_ep =>
      let s := s.modify i fun r => { r with buf := r.buf.set (r.buf.length - 1) 0 }
      let s := { s with printed := s.printed ++ (s.requests[i]?.map fun r => string r.buf).toList }
      (usb_ep_queue s ep i answer).2
  | _ => { s with crashed := true }

/-- The controller gives request `i` back, having received the given bytes. -/
def giveBack (s : Gadget) (ep : Ep) (i : ℕ) (received : List UInt8) (answer : ℤ) : Gadget :=
  let s := s.modify i fun r =>
    { r with buf := received ++ r.buf.drop received.length, place := .held }
  loopback_complete s ep i answer

def shutdown (ep : Ep) (s : Gadget) (i : ℕ) : Gadget :=
  match s.requests[i]? with
  | none => s
  | some r => if r.place = .queued ep ∧ s.crashed = false then giveBack s ep i [] 0 else s

/-- `usb_ep_disable`: every queued request comes back with `-ESHUTDOWN`. -/
def usb_ep_disable (s : Gadget) (ep : Ep) : Gadget :=
  (List.range s.requests.length).foldl (shutdown ep)
    { s with enabled := Function.update s.enabled ep false }

def disable_endpoint (clears : Bool) (s : Gadget) (ep : Ep) : Gadget :=
  let s := usb_ep_disable s ep
  if clears then { s with driver_data := Function.update s.driver_data ep .null } else s

def disable_loopback (clears : Bool) (s : Gadget) : Gadget :=
  disable_endpoint clears (disable_endpoint clears s .in_ep) .out_ep

structure Outcome where
  config_ep_by_speed : Ep → ℤ
  usb_ep_enable : Ep → ℤ
  /-- The allocation of a request and its buffer succeeds. -/
  alloc : Ep → Bool
  queue : Ep → ℤ

def enable_endpoint (s : Gadget) (o : Outcome) (ep : Ep) : ℤ × Gadget :=
  if o.config_ep_by_speed ep ≠ 0 then (o.config_ep_by_speed ep, s)
  else if o.usb_ep_enable ep < 0 then (o.usb_ep_enable ep, s)
  else (0, { s with
    enabled := Function.update s.enabled ep true
    driver_data := Function.update s.driver_data ep .loop })

/-- Half of `alloc_requests`: a null pointer is written through. -/
def start_request (s : Gadget) (o : Outcome) (ep : Ep) (length : ℕ) : ℤ × Gadget :=
  if o.alloc ep then
    usb_ep_queue { s with requests := s.requests ++ [⟨ep, List.replicate length 0, .held⟩] } ep
      s.requests.length (o.queue ep)
  else (0, { s with crashed := true })

/-- The result of the first `usb_ep_queue` is dropped. -/
def alloc_requests (s : Gadget) (o : Outcome) : ℤ × Gadget :=
  let s := (start_request s o .in_ep (1024 * 1024 * 2)).2
  if s.crashed then (0, s) else start_request s o .out_ep 512

def enable_loopback (s : Gadget) (o : Outcome) : ℤ × Gadget :=
  let (result, s) := enable_endpoint s o .in_ep
  if result ≠ 0 then (result, s)
  else
    let (result, s) := enable_endpoint s o .out_ep
    if result ≠ 0 then (result, usb_ep_disable s .in_ep)
    else
      let (result, s) := alloc_requests s o
      if result ≠ 0 ∧ s.crashed = false then
        (result, usb_ep_disable (usb_ep_disable s .out_ep) .in_ep)
      else (result, s)

def loopback_set_alt (clears : Bool) (s : Gadget) (o : Outcome) : ℤ × Gadget :=
  let s := if s.driver_data .in_ep ≠ .null then disable_loopback clears s else s
  enable_loopback s o

inductive Event
  | set_alt (o : Outcome)
  | disable
  /-- Request `i` completes; the status is not used by the callback. -/
  | complete (i : ℕ) (status : ℤ) (received : List UInt8) (answer : ℤ)

def step (clears : Bool) (s : Gadget) (e : Event) : Option Gadget :=
  if s.crashed then none
  else
    match e with
    | .set_alt o => some (loopback_set_alt clears s o).2
    | .disable => some (disable_loopback clears s)
    | .complete i _ received answer =>
      s.requests[i]?.bind fun r =>
        match r.place with
        | .queued ep =>
          if received.length ≤ r.buf.length then some (giveBack s ep i received answer) else none
        | _ => none

def bound : Gadget where
  driver_data _ := .cdev
  enabled _ := false
  requests := []
  c := 0
  printed := []
  crashed := false

theorem enable_endpoint_ok (s : Gadget) {o : Outcome} {ep : Ep}
    (hconfig : o.config_ep_by_speed ep = 0) (henable : 0 ≤ o.usb_ep_enable ep) :
    enable_endpoint s o ep = (0, { s with
      enabled := Function.update s.enabled ep true
      driver_data := Function.update s.driver_data ep .loop }) := by
  have hconfig' : ¬ o.config_ep_by_speed ep ≠ 0 := not_not.mpr hconfig
  have henable' : ¬ o.usb_ep_enable ep < 0 := by omega
  rw [enable_endpoint, if_neg hconfig', if_neg henable']

theorem enable_endpoint_eq_zero {s : Gadget} {o : Outcome} {ep : Ep}
    (h : (enable_endpoint s o ep).1 = 0) :
    o.config_ep_by_speed ep = 0 ∧ 0 ≤ o.usb_ep_enable ep := by
  unfold enable_endpoint at h
  split at h
  · dsimp only at h
    omega
  · split at h
    · dsimp only at h
      omega
    · omega

@[simp] theorem enable_endpoint_requests (s : Gadget) (o : Outcome) (ep : Ep) :
    (enable_endpoint s o ep).2.requests = s.requests := by
  unfold enable_endpoint
  split
  · rfl
  · split <;> rfl

theorem usb_ep_queue_ok {s : Gadget} {ep : Ep} (h : s.enabled ep = true) (i : ℕ) :
    usb_ep_queue s ep i 0 = (0, s.modify i fun r => { r with place := .queued ep }) := by
  simp only [usb_ep_queue, h, if_true]

theorem usb_ep_queue_refused {ep : Ep} {answer : ℤ} (h : answer ≠ 0) (s : Gadget) (i : ℕ) :
    (usb_ep_queue s ep i answer).2 = s := by
  unfold usb_ep_queue
  rw [if_neg h]
  split <;> rfl

/-- Queueing touches nothing but its request. -/
theorem usb_ep_queue_modify (s : Gadget) (ep : Ep) (i : ℕ) (answer : ℤ) :
    ∃ f : Request → Request, (usb_ep_queue s ep i answer).2 = s.modify i f := by
  have hkeep : s = s.modify i id := by simp [Gadget.modify]
  unfold usb_ep_queue
  split
  · split
    · exact ⟨_, rfl⟩
    · exact ⟨id, hkeep⟩
  · exact ⟨id, hkeep⟩

/-- A completion on an enabled endpoint of the driver that is accepted again. -/
theorem giveBack_ok {s : Gadget} {ep : Ep} (hloop : s.driver_data ep = .loop)
    (henabled : s.enabled ep = true) (i : ℕ) (received : List UInt8) :
    (giveBack s ep i received 0).enabled = s.enabled ∧
      (giveBack s ep i received 0).driver_data = s.driver_data ∧
      ∃ f : Request → Request, (∀ r, (f r).ep = r.ep ∧ (f r).place = .queued ep) ∧
        (giveBack s ep i received 0).requests = s.requests.modify i f := by
  cases ep
  · simp only [giveBack, loopback_complete, Gadget.modify, hloop, usb_ep_queue, henabled, if_true,
      List.modify_modify_eq, true_and]
    refine ⟨_, ?_, rfl⟩
    intro r
    exact ⟨rfl, rfl⟩
  · simp only [giveBack, loopback_complete, Gadget.modify, hloop, usb_ep_queue, henabled, if_true,
      List.modify_modify_eq, true_and]
    refine ⟨_, ?_, rfl⟩
    intro r
    exact ⟨rfl, rfl⟩

/-- A completion whose request is refused leaves it with the driver. -/
theorem giveBack_refused {s : Gadget} {ep : Ep} {i : ℕ} {r : Request} {answer : ℤ}
    (hloop : s.driver_data ep = .loop) (h : s.enabled ep = false ∨ answer ≠ 0)
    (hr : s.requests[i]? = some r) (received : List UInt8) :
    ∃ r', (giveBack s ep i received answer).requests[i]? = some r' ∧ r'.place = .held := by
  have hqueue : ∀ t : Gadget, t.enabled = s.enabled → (usb_ep_queue t ep i answer).2 = t := by
    intro t ht
    unfold usb_ep_queue
    rcases h with hd | ha
    · rw [ht, hd]
      rfl
    · rw [if_neg ha]
      split <;> rfl
  cases ep
  · simp only [giveBack, loopback_complete, Gadget.modify, hloop]
    rw [hqueue]
    · simp [List.getElem?_modify_eq, hr]
    · rfl
  · simp only [giveBack, loopback_complete, Gadget.modify, hloop]
    rw [hqueue]
    · simp [List.getElem?_modify_eq, hr]
    · rfl

/-- A completion step gives back a request that was queued. -/
theorem complete_cases {clears : Bool} {s t : Gadget} {i : ℕ} {status answer : ℤ}
    {received : List UInt8} (h : step clears s (.complete i status received answer) = some t) :
    ∃ r ep, s.requests[i]? = some r ∧ r.place = .queued ep ∧
      t = giveBack s ep i received answer := by
  unfold step at h
  split at h
  · cases h
  · obtain ⟨r, hr, h⟩ := Option.bind_eq_some_iff.mp h
    split at h
    · rename_i ep hplace
      obtain ⟨-, ht⟩ := Option.ite_none_right_eq_some.mp h
      exact ⟨r, ep, hr, hplace, (Option.some.inj ht).symm⟩
    · cases h

theorem modify_snoc {α : Type} (l : List α) (a : α) (f : α → α) :
    (l ++ [a]).modify l.length f = l ++ [f a] := by
  induction l with
  | nil => rfl
  | cons b l ih =>
    rw [List.cons_append, List.length_cons, List.modify_succ_cons, ih, List.cons_append]

theorem start_request_null (s : Gadget) {o : Outcome} {ep : Ep} (h : o.alloc ep = false)
    (length : ℕ) : start_request s o ep length = (0, { s with crashed := true }) := by
  simp [start_request, h]

/-- A request that is allocated and accepted. -/
theorem start_request_ok {s : Gadget} {o : Outcome} {ep : Ep} (halloc : o.alloc ep = true)
    (henabled : s.enabled ep = true) (hqueue : o.queue ep = 0) (length : ℕ) :
    start_request s o ep length = (0, { s with
      requests := s.requests ++ [⟨ep, List.replicate length 0, .queued ep⟩] }) := by
  have hopen : ({ s with requests := s.requests ++ [⟨ep, List.replicate length 0, .held⟩] } :
      Gadget).enabled ep = true := henabled
  simp only [start_request, halloc, if_true, hqueue, usb_ep_queue_ok hopen, Gadget.modify,
    modify_snoc]

/-- A request that is allocated and refused stays with the driver. -/
theorem start_request_refused (s : Gadget) {o : Outcome} {ep : Ep} (halloc : o.alloc ep = true)
    (hqueue : o.queue ep ≠ 0) (length : ℕ) :
    (start_request s o ep length).2 = { s with
      requests := s.requests ++ [⟨ep, List.replicate length 0, .held⟩] } := by
  simp only [start_request, halloc, if_true]
  exact usb_ep_queue_refused hqueue _ _

end Fixed.LoopbackGadget
