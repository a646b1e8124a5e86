import Fixed.Runs
import Fixed.UsbStates
import Mathlib.Data.List.Chain

/-!
The order of the events that a device sends. As long as no other device runs its
work, user space hears `CONNECTED` only right after `DISCONNECTED` or as the first
event, and never hears `CONFIGURED` twice without a `DISCONNECTED` between, in
whatever order the callbacks, the samples and the work run.
-/
namespace Fixed.UeventOrder

open Runs UsbStates

structure Follows (a b : DeviceState) : Prop where
  connected : b = .CONNECTED → a = .DISCONNECTED
  configured : b = .CONFIGURED → a ≠ .CONFIGURED
  told : b ≠ .SUSPENDED ∧ b ≠ .RESUMED

def shown (dev : UsbDev R) : DeviceState := dev.sent.getLast?.getD .DISCONNECTED

/-- What a work still has to tell agrees with what was told. -/
def Consistent (last_uevent next_state shown : DeviceState) : Option Running → Prop
  | none => shown = last_uevent
  | some r =>
    match r.phase with
    | .lock => shown = last_uevent
    | .vote | .check => shown = last_uevent ∧ r.uevent_envp.getD next_state = next_state
    | .notify =>
      shown = (if missed last_uevent r.uevent_envp then .DISCONNECTED else last_uevent) ∧
        r.uevent_envp.getD next_state = next_state

variable {ι R : Type*}

structure Told (s : Usb ι R) (d : ι) : Prop where
  idle : ∀ e, e ≠ d → (s.dev e).running = none
  order : (DeviceState.DISCONNECTED :: (s.dev d).sent).IsChain Follows
  consistent : Consistent s.last_uevent s.next_state (shown (s.dev d)) (s.dev d).running

def OnlyWork (d : ι) : Event ι → Prop
  | .work e => e = d
  | _ => True

section Sending

variable {sent : List DeviceState} {event : DeviceState}

theorem isChain_send (h : (DeviceState.DISCONNECTED :: sent).IsChain Follows)
    (hevent : Follows (sent.getLast?.getD .DISCONNECTED) event) :
    (DeviceState.DISCONNECTED :: (sent ++ [event])).IsChain Follows := by
  rw [← List.cons_append]
  apply h.append (List.isChain_singleton event)
  intro a ha b hb
  rw [List.getLast?_cons, Option.mem_some_iff] at ha
  obtain rfl : event = b := by simpa using hb
  exact ha ▸ hevent

theorem getLast?_send : (sent ++ [event]).getLast?.getD .DISCONNECTED = event := by
  rw [List.getLast?_append, List.getLast?_singleton]
  rfl

end Sending

variable {s t : Usb ι R} {d : ι}

theorem Told.congr (h : Told s d) (hrunning : ∀ e, (t.dev e).running = (s.dev e).running)
    (hsent : (t.dev d).sent = (s.dev d).sent) (hlast : t.last_uevent = s.last_uevent)
    (hnext : t.next_state = s.next_state) : Told t d where
  idle e he := (hrunning e).trans (h.idle e he)
  order := by
    rw [hsent]
    exact h.order
  consistent := by
    rw [shown, hsent, hlast, hnext, hrunning]
    exact h.consistent

theorem callback_running (c : Callback) (dev : UsbDev R) :
    (callback c dev).running = dev.running ∧ (callback c dev).sent = dev.sent := by
  cases c with
  | suspend =>
    unfold callback android_suspend
    split_ifs <;> exact ⟨rfl, rfl⟩
  | resume =>
    unfold callback android_resume
    split_ifs <;> exact ⟨rfl, rfl⟩
  | attribute_store field value => cases field <;> exact ⟨rfl, rfl⟩
  | _ => exact ⟨rfl, rfl⟩

theorem setupLocked_running (r : Request) (dev : UsbDev R) :
    (setupLocked r dev).running = dev.running ∧ (setupLocked r dev).sent = dev.sent := by
  unfold setupLocked
  dsimp only
  split_ifs <;> exact ⟨rfl, rfl⟩

theorem told_sameBus (h : Told s d) (hbus : SameBus s t) : Told t d := by
  refine h.congr ?_ ?_ hbus.last_uevent hbus.next_state
  · intro e
    rw [hbus.dev e]
  · rw [hbus.dev d]

variable [DecidableEq ι] {p : Platform ι R}

/-- The device of a step is replaced by one with the same work and events. -/
theorem told_setDev (h : Told s d) (e : ι) {g : UsbDev R → UsbDev R}
    (hg : ∀ dev, (g dev).running = dev.running ∧ (g dev).sent = dev.sent) :
    Told (s.setDev e g) d := by
  have hdev : ∀ e', ((s.setDev e g).dev e').running = (s.dev e').running ∧
      ((s.setDev e g).dev e').sent = (s.dev e').sent := by
    intro e'
    by_cases he : e' = e
    · rw [he, setDev_same]
      exact hg (s.dev e)
    · rw [setDev_of_ne s he]
      exact ⟨rfl, rfl⟩
  exact h.congr (fun e' => (hdev e').1) (hdev d).2 rfl rfl

theorem told_workLocked (h : Told s d) {r : Running} (hr : (s.dev d).running = some r)
    (hphase : r.phase = .lock) : Told (workLocked d s) d := by
  have hshown := h.consistent
  rw [hr] at hshown
  simp only [Consistent, hphase] at hshown
  unfold workLocked
  constructor
  · intro e he
    rw [setDev_of_ne _ he]
    exact h.idle e he
  · rw [setDev_same]
    exact h.order
  · rw [setDev_same]
    refine ⟨hshown, ?_⟩
    show (snapshot (s.dev d)).1.getD ((snapshot (s.dev d)).1.getD s.next_state) =
      (snapshot (s.dev d)).1.getD s.next_state
    cases (snapshot (s.dev d)).1 <;> rfl

theorem told_workVote (h : Told s d) {r : Running} (hr : (s.dev d).running = some r)
    (hphase : r.phase = .vote) : Told (workVote p d r s) d := by
  have hbus := sameBus_vote (p := p) d r.pm_qos_vote s
  have hvoted := told_sameBus h hbus
  have hdev := hbus.dev d
  have hconsistent := hvoted.consistent
  unfold workVote
  generalize vote p d r.pm_qos_vote s = t at hvoted hdev hconsistent
  rw [hdev] at hconsistent
  simp only [hr, Consistent, hphase] at hconsistent
  constructor
  · intro e he
    rw [setDev_of_ne _ he]
    exact hvoted.idle e he
  · rw [setDev_same]
    exact hvoted.order
  · rw [setDev_same, hdev]
    exact hconsistent

theorem told_workCheck (h : Told s d) {r : Running} (hr : (s.dev d).running = some r)
    (hphase : r.phase = .check) : Told (workCheck d r s) d := by
  have hconsistent := h.consistent
  rw [hr] at hconsistent
  simp only [Consistent, hphase] at hconsistent
  obtain ⟨hshown, hnext⟩ := hconsistent
  unfold workCheck
  constructor
  · intro e he
    rw [setDev_of_ne _ he]
    exact h.idle e he
  · rw [setDev_same]
    dsimp only
    split_ifs
    · exact isChain_send h.order ⟨fun hd => (nomatch hd), fun hd => (nomatch hd),
        fun hd => (nomatch hd), fun hd => (nomatch hd)⟩
    · exact h.order
  · rw [setDev_same]
    refine ⟨?_, hnext⟩
    show (if missed s.last_uevent r.uevent_envp then (s.dev d).sent ++ [.DISCONNECTED]
      else (s.dev d).sent).getLast?.getD .DISCONNECTED =
        if missed s.last_uevent r.uevent_envp then .DISCONNECTED else s.last_uevent
    split_ifs
    · exact getLast?_send
    · exact hshown

/-- A final event never breaks the order, as what was missed has been made up for. -/
theorem follows_of_missed {last_uevent uevent_envp shown : DeviceState}
    (hshown : shown = if missed last_uevent (some uevent_envp) then .DISCONNECTED else last_uevent)
    (hstate : uevent_envp ≠ .SUSPENDED ∧ uevent_envp ≠ .RESUMED) : Follows shown uevent_envp := by
  constructor
  · intro hconnected
    by_cases hlast : last_uevent = .DISCONNECTED
    · simpa [missed, hconnected, hlast] using hshown
    · simpa [missed, hconnected, hlast] using hshown
  · intro hconfigured
    by_cases hlast : last_uevent = .CONFIGURED
    · simp [hshown, missed, hconfigured, hlast]
    · simp [hshown, missed, hconfigured, hlast]
  · exact hstate

theorem told_workNotify (h : Told s d) {r : Running} (hr : (s.dev d).running = some r)
    (hphase : r.phase = .notify) : Told (workNotify d r s) d := by
  have hconsistent := h.consistent
  rw [hr] at hconsistent
  simp only [Consistent, hphase] at hconsistent
  obtain ⟨hshown, hnext⟩ := hconsistent
  have hidle : ∀ g, ∀ e, e ≠ d → ((s.setDev d g).dev e).running = none := by
    intro g e he
    rw [setDev_of_ne s he]
    exact h.idle e he
  unfold workNotify
  cases hevent : r.uevent_envp with
  | none =>
    rw [hevent] at hshown
    exact ⟨hidle _, by rw [setDev_same]; exact h.order, by rw [setDev_same]; exact hshown⟩
  | some uevent_envp =>
    rw [hevent] at hshown hnext
    have hstate : uevent_envp = s.next_state := hnext
    dsimp only
    split_ifs with htold
    · have hfollows := follows_of_missed hshown (hstate ▸ htold)
      constructor
      · intro e he
        rw [setDev_of_ne _ he, setDev_of_ne _ he]
        exact h.idle e he
      · simp only [setDev_same]
        exact isChain_send h.order hfollows
      · simp only [setDev_same]
        show ((s.dev d).sent ++ [uevent_envp]).getLast?.getD .DISCONNECTED = s.next_state
        rw [getLast?_send, hstate]
    · refine ⟨hidle _, by rw [setDev_same]; exact h.order, ?_⟩
      rw [setDev_same]
      show shown (s.dev d) = s.last_uevent
      rw [hshown, if_neg]
      rw [← hstate] at htold
      revert htold
      cases uevent_envp <;> simp [missed]

theorem told_android_work (h : Told s d) (hwork : android_work p d s = some t) : Told t d := by
  unfold android_work at hwork
  cases hr : (s.dev d).running with
  | none =>
    rw [hr] at hwork
    dsimp only at hwork
    split_ifs at hwork
    obtain rfl := Option.some.inj hwork
    have hconsistent := h.consistent
    rw [hr] at hconsistent
    unfold workBegin
    constructor
    · intro e he
      rw [setDev_of_ne _ he]
      exact h.idle e he
    · rw [setDev_same]
      exact h.order
    · rw [setDev_same]
      exact hconsistent
  | some r =>
    rw [hr] at hwork
    cases hphase : r.phase with
    | lock =>
      simp only [hphase] at hwork
      exact Option.some.inj hwork ▸ told_workLocked h hr hphase
    | vote =>
      simp only [hphase] at hwork
      exact Option.some.inj hwork ▸ told_workVote h hr hphase
    | check =>
      simp only [hphase] at hwork
      exact Option.some.inj hwork ▸ told_workCheck h hr hphase
    | notify =>
      simp only [hphase] at hwork
      exact Option.some.inj hwork ▸ told_workNotify h hr hphase

theorem told_step (s : Usb ι R) (e : Event ι) (t : Usb ι R) (h : Told s d)
    (hstep : step p s e = some t) (honly : OnlyWork d e) : Told t d := by
  cases e with
  | callback e c =>
    obtain ⟨rfl, -⟩ := step_callback hstep
    exact told_setDev h e (callback_running c)
  | setupDone e =>
    unfold step at hstep
    split_ifs at hstep
    obtain ⟨r, -, rfl⟩ := Option.map_eq_some_iff.mp hstep
    exact told_setDev h e (setupLocked_running r)
  | work e =>
    obtain rfl : e = d := honly
    unfold step at hstep
    split_ifs at hstep
    exact told_android_work h hstep
  | pm_qos_work e count =>
    unfold step at hstep
    split_ifs at hstep
    dsimp only at hstep
    split_ifs at hstep
    exact Option.some.inj hstep ▸ told_sameBus h (sameBus_pm_qos_work e count s)

/-- What user space hears from a device in a run where no other device works. -/
theorem uevents_follow {es : List (Event ι)} (honly : ∀ e ∈ es, OnlyWork d e)
    (hrun : exec (step p) (initial p) es = some s) :
    (DeviceState.DISCONNECTED :: (s.dev d).sent).IsChain Follows := by
  have hinitial : Told (initial p) d := ⟨fun _ _ => rfl, List.isChain_singleton _, rfl⟩
  exact (exec_invariant_of_allSteps (step p) told_step hinitial
    (allSteps_of_mem (step p) honly _) hrun).order

def wholeWork (d : ι) : List (Event ι) := List.replicate 5 (.work d)

def quickReset (d : ι) : List (Event ι) :=
  .callback d (.setup false false) :: .setupDone d :: wholeWork d ++
    .callback d (.setup true true) :: .setupDone d :: wholeWork d ++
    .callback d (.disconnect false) :: .callback d (.setup true true) :: .setupDone d :: wholeWork d

def noVotes (ι : Type*) : Platform ι (Option ℤ) where
  latencies _ := ⟨false, fun _ => 0⟩
  zeroed := none
  pm_qos_request_active r := r.isSome
  pm_qos_add_request value r := if r.isSome then (r, true) else (some value, false)
  pm_qos_update_request value r := if r.isSome then (some value, false) else (r, true)
  pm_qos_remove_request r := (none, r.isNone)

theorem uevents_follow_quickReset : ∃ s,
    exec (step (noVotes Unit)) (initial (noVotes Unit)) (quickReset ()) = some s ∧
      [DeviceState.DISCONNECTED, .CONNECTED, .CONFIGURED, .DISCONNECTED, .CONFIGURED].IsChain
        Follows := by
  obtain ⟨s, hrun, hsent⟩ : ∃ s,
      exec (step (noVotes Unit)) (initial (noVotes Unit)) (quickReset ()) = some s ∧
        (s.dev ()).sent = [.CONNECTED, .CONFIGURED, .DISCONNECTED, .CONFIGURED] := ⟨_, rfl, rfl⟩
  refine ⟨s, hrun, ?_⟩
  rw [← hsent]
  exact uevents_follow (d := ()) (fun e _ => by cases e <;> trivial) hrun

end Fixed.UeventOrder
