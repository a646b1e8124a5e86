import Fixed.UeventOrder

/-!
What user space knows of a device once nothing is under way. While the device is
never suspended, its configuration goes away only with the connection and no request
configures it before another one connected it, the last event is the state of the
device, except that `CONFIGURED` can stand where the device is no more than connected.
A reset that ends before the work runs always leaves it there, and a suspend before
the work runs keeps `CONFIGURED` from being sent at all.
-/
namespace Fixed.UeventReport

open Runs UeventOrder UsbStates

structure Quiescent (dev : UsbDev R) : Prop where
  work : dev.work = false
  running : dev.running = none
  request : dev.request = none

def Scheduled (dev : UsbDev R) : Prop :=
  dev.work = true ∨ ∃ r, dev.running = some r ∧ r.phase = .lock

/-- The event that will have been the last one when the work ends. -/
def due (last_uevent : DeviceState) (dev : UsbDev R) : DeviceState :=
  match dev.running with
  | none => last_uevent
  | some r => if r.phase = .lock then last_uevent else r.uevent_envp.getD last_uevent

def Plain (dev : UsbDev R) : Callback → Prop
  | .setup set_configuration config =>
    (dev.config = true → config = true) ∧
      (config = true → dev.config = true ∨ set_configuration = true ∧ dev.connected = true)
  | .disconnect config => config = false
  | .suspend | .resume | .config _ | .enable_failed => False
  | .pm_qos_store _ | .attribute_store _ _ => True

/-- Nothing else than `OnlyWork` is asked of the steps of the other devices. -/
def PlainStep {ι R : Type*} (d : ι) (s : Usb ι R) (e : Event ι) (_ : Usb ι R) : Prop :=
  OnlyWork d e ∧ ∀ c, e = .callback d c → Plain (s.dev d) c

structure Reported (last_uevent : DeviceState) (dev : UsbDev R) : Prop where
  awake : dev.suspended = false ∧ dev.sw_suspended = false
  config : dev.config = true → dev.connected = true
  configured : dev.config = true →
    due last_uevent dev = .CONFIGURED ∨ Scheduled dev ∨ dev.request = some ⟨true, false⟩
  connected : dev.connected ≠ dev.sw_connected → Scheduled dev
  due_false : dev.sw_connected = false → due last_uevent dev = .DISCONNECTED
  due_true : dev.sw_connected = true →
    due last_uevent dev = .CONNECTED ∨ due last_uevent dev = .CONFIGURED

section Callbacks

variable {last_uevent : DeviceState} {dev : UsbDev R}

theorem Reported.due_plain (h : Reported last_uevent dev) :
    due last_uevent dev ≠ .SUSPENDED ∧ due last_uevent dev ≠ .RESUMED := by
  cases hconnected : dev.sw_connected with
  | false => simp [h.due_false hconnected]
  | true =>
    rcases h.due_true hconnected with hdue | hdue
    · simp [hdue]
    · simp [hdue]

theorem reported_setup (h : Reported last_uevent dev) {set_configuration config : Bool}
    (hrequest : dev.request = none) (hplain : Plain dev (.setup set_configuration config)) :
    Reported last_uevent (setupHandle set_configuration config dev) where
  awake := h.awake
  config hconfig := by
    rcases hplain.2 hconfig with hbefore | ⟨-, hconnected⟩
    · exact h.config hbefore
    · exact hconnected
  configured hconfig := by
    cases hbefore : dev.config with
    | true =>
      rcases h.configured hbefore with hdue | hscheduled | hpending
      · exact Or.inl hdue
      · exact Or.inr (Or.inl hscheduled)
      · rw [hrequest] at hpending
        cases hpending
    | false =>
      rcases hplain.2 hconfig with htrue | ⟨hset, -⟩
      · rw [hbefore] at htrue
        cases htrue
      · refine Or.inr (Or.inr ?_)
        show some (⟨set_configuration, dev.config⟩ : Request) = _
        rw [hset, hbefore]
  connected := h.connected
  due_false := h.due_false
  due_true := h.due_true

theorem reported_setupLocked (h : Reported last_uevent dev) {r : Request}
    (hrequest : dev.request = some r) : Reported last_uevent (setupLocked r dev) := by
  unfold setupLocked
  dsimp only
  split_ifs with hconnected hset hprev
  · exact ⟨h.awake, fun _ => rfl, fun _ => Or.inr (Or.inl (Or.inl rfl)), fun _ => Or.inl rfl,
      h.due_false, h.due_true⟩
  · refine ⟨h.awake, h.config, ?_, h.connected, h.due_false, h.due_true⟩
    intro hconfig
    rcases h.configured hconfig with hdue | hscheduled | hpending
    · exact Or.inl hdue
    · exact Or.inr (Or.inl hscheduled)
    · rw [hrequest] at hpending
      rw [Option.some.inj hpending] at hprev
      cases hprev
  · exact ⟨h.awake, h.config, fun _ => Or.inr (Or.inl (Or.inl rfl)), fun _ => Or.inl rfl,
      h.due_false, h.due_true⟩
  · refine ⟨h.awake, h.config, ?_, h.connected, h.due_false, h.due_true⟩
    intro hconfig
    rcases h.configured hconfig with hdue | hscheduled | hpending
    · exact Or.inl hdue
    · exact Or.inr (Or.inl hscheduled)
    · rw [hrequest] at hpending
      rw [Option.some.inj hpending] at hset
      exact absurd ⟨rfl, hconfig⟩ hset

theorem reported_callback (h : Reported last_uevent dev) {c : Callback} (hplain : Plain dev c)
    (hrequest : c.isSetup = true → dev.request = none) :
    Reported last_uevent (callback c dev) := by
  cases c with
  | setup set_configuration config => exact reported_setup h (hrequest rfl) hplain
  | disconnect config =>
    obtain rfl : config = false := hplain
    exact ⟨h.awake, fun hset => absurd hset Bool.false_ne_true,
      fun hset => absurd hset Bool.false_ne_true, fun _ => Or.inl rfl, h.due_false, h.due_true⟩
  | suspend => exact hplain.elim
  | resume => exact hplain.elim
  | config config => exact hplain.elim
  | enable_failed => exact hplain.elim
  | pm_qos_store buff =>
    exact ⟨h.awake, h.config, h.configured, h.connected, h.due_false, h.due_true⟩
  | attribute_store field value =>
    cases field
    all_goals exact ⟨h.awake, h.config, h.configured, h.connected, h.due_false, h.due_true⟩

end Callbacks

section Work

variable {last_uevent : DeviceState} {dev : UsbDev R}

theorem due_of_running (last_uevent : DeviceState) {r : Running} (hr : dev.running = some r)
    (hphase : r.phase ≠ .lock) : due last_uevent dev = r.uevent_envp.getD last_uevent := by
  rw [due, hr]
  exact if_neg hphase

/-- The work goes on and leaves what is known alone. -/
theorem Reported.congr (h : Reported last_uevent dev) {last_uevent' : DeviceState} {dev' : UsbDev R}
    (hbus : dev' = { dev with
      work := dev'.work
      running := dev'.running
      sent := dev'.sent
      curr_pm_qos_state := dev'.curr_pm_qos_state
      pm_qos_work := dev'.pm_qos_work
      pm_qos_req_dma := dev'.pm_qos_req_dma })
    (hdue : due last_uevent' dev' = due last_uevent dev)
    (hscheduled : Scheduled dev → Scheduled dev') : Reported last_uevent' dev' := by
  constructor
  · rw [hbus]
    exact h.awake
  · rw [hbus]
    exact h.config
  · intro hconfig
    rw [hbus] at hconfig
    rcases h.configured hconfig with hconfigured | hstill | hpending
    · exact Or.inl (hdue.trans hconfigured)
    · exact Or.inr (Or.inl (hscheduled hstill))
    · refine Or.inr (Or.inr ?_)
      rw [hbus]
      exact hpending
  · intro hconnected
    rw [hbus] at hconnected
    exact hscheduled (h.connected hconnected)
  · intro hconnected
    rw [hbus] at hconnected
    exact hdue.trans (h.due_false hconnected)
  · intro hconnected
    rw [hbus] at hconnected
    rw [hdue]
    exact h.due_true hconnected

/-- What the part under the lock finds is the state of the device. -/
theorem reported_locked (h : Reported last_uevent dev) {r : Running}
    (hr : dev.running = some r) (hphase : r.phase = .lock) {dev' : UsbDev R}
    (hdev : dev' = { dev with
      sw_connected := dev.connected
      sw_suspended := dev.suspended
      running := some ⟨.vote, (snapshot dev).1, (snapshot dev).2⟩ }) :
    Reported last_uevent dev' := by
  have hbefore : due last_uevent dev = last_uevent := by
    rw [due, hr]
    exact if_pos hphase
  have hdue : due last_uevent dev' = (snapshot dev).1.getD last_uevent := by
    rw [hdev]
    rfl
  have hawake : ¬ (dev.suspended ≠ dev.sw_suspended ∧ dev.config = true) := by
    simp [h.awake.1, h.awake.2]
  unfold snapshot at hdue
  rw [if_neg hawake] at hdue
  have hconfigured : dev.config = true → due last_uevent dev' = .CONFIGURED := by
    intro hconfig
    rw [hdue, if_pos hconfig]
    rfl
  constructor
  · rw [hdev]
    exact ⟨h.awake.1, h.awake.1⟩
  · rw [hdev]
    exact h.config
  · intro hconfig
    rw [hdev] at hconfig
    exact Or.inl (hconfigured hconfig)
  · rw [hdev]
    exact fun hne => absurd rfl hne
  · intro hconnected
    have hoff : dev.connected = false := by rwa [hdev] at hconnected
    have hconfig : ¬ dev.config = true := by
      intro hconfig
      rw [h.config hconfig] at hoff
      cases hoff
    rw [hdue, if_neg hconfig]
    by_cases hchanged : dev.connected ≠ dev.sw_connected
    · rw [if_pos hchanged, hoff]
      rfl
    · rw [if_neg hchanged]
      show last_uevent = _
      rw [← hbefore]
      exact h.due_false ((not_not.mp hchanged).symm.trans hoff)
  · intro hconnected
    have hon : dev.connected = true := by rwa [hdev] at hconnected
    by_cases hconfig : dev.config = true
    · exact Or.inr (hconfigured hconfig)
    · rw [hdue, if_neg hconfig]
      by_cases hchanged : dev.connected ≠ dev.sw_connected
      · rw [if_pos hchanged, hon]
        exact Or.inl rfl
      · rw [if_neg hchanged]
        show last_uevent = _ ∨ last_uevent = _
        rw [← hbefore]
        exact h.due_true ((not_not.mp hchanged).symm.trans hon)

end Work

variable {ι R : Type*} [DecidableEq ι] {p : Platform ι R} {s t : Usb ι R} {d : ι}

theorem reported_android_work (h : Told s d) (hreported : Reported s.last_uevent (s.dev d))
    (hwork : android_work p d s = some t) : Reported t.last_uevent (t.dev d) := by
  unfold android_work at hwork
  cases hr : (s.dev d).running with
  | none =>
    rw [hr] at hwork
    dsimp only at hwork
    split_ifs at hwork
    obtain rfl := Option.some.inj hwork
    unfold workBegin
    rw [setDev_same]
    refine hreported.congr rfl ?_ fun _ => Or.inr ⟨_, rfl, rfl⟩
    simp only [due, hr]
    rfl
  | some r =>
    rw [hr] at hwork
    have hnot : r.phase ≠ .lock → ¬ (∃ r', (s.dev d).running = some r' ∧ r'.phase = .lock) := by
      intro hphase ⟨r', hr', hlock⟩
      rw [hr] at hr'
      exact hphase (Option.some.inj hr' ▸ hlock)
    cases hphase : r.phase with
    | lock =>
      simp only [hphase] at hwork
      obtain rfl := Option.some.inj hwork
      unfold workLocked
      rw [setDev_same]
      exact reported_locked hreported hr hphase rfl
    | vote =>
      have hlock : r.phase ≠ .lock := by simp [hphase]
      simp only [hphase] at hwork
      obtain rfl := Option.some.inj hwork
      have hbus := sameBus_vote (p := p) d r.pm_qos_vote s
      unfold workVote
      rw [setDev_same]
      refine hreported.congr ?_ ?_ ?_
      · rw [hbus.dev d]
      · rw [due_of_running _ hr hlock]
        show r.uevent_envp.getD (vote p d r.pm_qos_vote s).last_uevent = _
        rw [hbus.last_uevent]
      · intro hscheduled
        refine Or.inl ?_
        rw [hbus.dev d]
        exact hscheduled.resolve_right (hnot hlock)
    | check =>
      have hlock : r.phase ≠ .lock := by simp [hphase]
      simp only [hphase] at hwork
      obtain rfl := Option.some.inj hwork
      unfold workCheck
      rw [setDev_same]
      refine hreported.congr rfl ?_ ?_
      · rw [due_of_running _ hr hlock]
        rfl
      · intro hscheduled
        exact Or.inl (hscheduled.resolve_right (hnot hlock))
    | notify =>
      have hlock : r.phase ≠ .lock := by simp [hphase]
      have hdue := due_of_running s.last_uevent hr hlock
      have hplain := hreported.due_plain
      have hconsistent := h.consistent
      rw [hr] at hconsistent
      simp only [Consistent, hphase] at hconsistent
      simp only [hphase] at hwork
      obtain rfl := Option.some.inj hwork
      have hscheduled := fun h : Scheduled (s.dev d) => h.resolve_right (hnot hlock)
      unfold workNotify
      cases hevent : r.uevent_envp with
      | none =>
        rw [hevent] at hdue
        dsimp only
        rw [setDev_same]
        exact hreported.congr rfl hdue.symm fun h => Or.inl (hscheduled h)
      | some uevent_envp =>
        rw [hevent] at hdue hconsistent
        have hstate : uevent_envp = s.next_state := hconsistent.2
        rw [hdue] at hplain
        dsimp only
        rw [if_pos (hstate ▸ hplain)]
        simp only [setDev_same]
        exact hreported.congr rfl (hstate.symm.trans hdue.symm) fun h => Or.inl (hscheduled h)

theorem reported_step (s : Usb ι R) (e : Event ι) (t : Usb ι R)
    (h : Told s d ∧ Reported s.last_uevent (s.dev d)) (hstep : step p s e = some t)
    (hplain : PlainStep d s e t) : Told t d ∧ Reported t.last_uevent (t.dev d) := by
  obtain ⟨htold, hreported⟩ := h
  refine ⟨told_step s e t htold hstep hplain.1, ?_⟩
  cases e with
  | callback e c =>
    obtain ⟨rfl, hrequest⟩ := step_callback hstep
    by_cases he : e = d
    · subst he
      rw [setDev_same]
      exact reported_callback hreported (hplain.2 c rfl) hrequest
    · rw [setDev_of_ne s (Ne.symm he)]
      exact hreported
  | setupDone e =>
    unfold step at hstep
    split_ifs at hstep
    obtain ⟨r, hrequest, rfl⟩ := Option.map_eq_some_iff.mp hstep
    by_cases he : e = d
    · subst he
      rw [setDev_same]
      exact reported_setupLocked hreported hrequest
    · rw [setDev_of_ne s (Ne.symm he)]
      exact hreported
  | work e =>
    obtain rfl : e = d := hplain.1
    unfold step at hstep
    split_ifs at hstep
    exact reported_android_work htold hreported hstep
  | pm_qos_work e count =>
    unfold step at hstep
    split_ifs at hstep
    dsimp only at hstep
    split_ifs at hstep
    obtain rfl := Option.some.inj hstep
    have hbus := sameBus_pm_qos_work (p := p) e count s
    have hdev := hbus.dev d
    rw [hbus.last_uevent]
    refine hreported.congr ?_ ?_ ?_
    · rw [hdev]
    · unfold due
      rw [hdev]
    · unfold Scheduled
      rw [hdev]
      exact id

theorem reported_run {es : List (Event ι)}
    (hplain : AllSteps (step p) (PlainStep d) (initial p) es)
    (hrun : exec (step p) (initial p) es = some s) :
    Told s d ∧ Reported s.last_uevent (s.dev d) := by
  have htold : Told (initial p) d := ⟨fun _ _ => rfl, List.isChain_singleton _, rfl⟩
  have hreported : Reported (initial p).last_uevent ((initial p).dev d) :=
    ⟨⟨rfl, rfl⟩, fun hset => absurd hset Bool.false_ne_true,
      fun hset => absurd hset Bool.false_ne_true, fun hne => absurd rfl hne, fun _ => rfl,
      fun hset => absurd hset Bool.false_ne_true⟩
  exact exec_invariant_of_allSteps (step p)
    (I := fun s => Told s d ∧ Reported s.last_uevent (s.dev d)) reported_step ⟨htold, hreported⟩
    hplain hrun

omit [DecidableEq ι] in
theorem Told.shown_eq (h : Told s d) (hquiet : Quiescent (s.dev d)) :
    shown (s.dev d) = s.last_uevent := by
  have hconsistent := h.consistent
  rw [hquiet.running] at hconsistent
  exact hconsistent

omit [DecidableEq ι] in
theorem shown_cases (htold : Told s d) (hreported : Reported s.last_uevent (s.dev d))
    (hquiet : Quiescent (s.dev d)) :
    shown (s.dev d) = state_show (s.dev d) ∨
      state_show (s.dev d) = .CONNECTED ∧ shown (s.dev d) = .CONFIGURED := by
  have hscheduled : ¬ Scheduled (s.dev d) := by
    rintro (hwork | ⟨r, hr, -⟩)
    · rw [hquiet.work] at hwork
      cases hwork
    · rw [hquiet.running] at hr
      cases hr
  have hdue : due s.last_uevent (s.dev d) = s.last_uevent := by rw [due, hquiet.running]
  have hconnected : (s.dev d).connected = (s.dev d).sw_connected :=
    not_not.mp fun hne => hscheduled (hreported.connected hne)
  rw [Told.shown_eq htold hquiet, ← hdue]
  unfold state_show
  by_cases hconfig : (s.dev d).config = true
  · rw [if_pos hconfig]
    rcases hreported.configured hconfig with hconfigured | hstill | hpending
    · exact Or.inl hconfigured
    · exact absurd hstill hscheduled
    · rw [hquiet.request] at hpending
      cases hpending
  · rw [if_neg hconfig]
    cases hsw : (s.dev d).sw_connected with
    | false =>
      rw [if_neg (by simp [hconnected, hsw])]
      exact Or.inl (hreported.due_false hsw)
    | true =>
      rw [if_pos (hconnected.trans hsw)]
      rcases hreported.due_true hsw with hon | hconfigured
      · exact Or.inl hon
      · exact Or.inr ⟨rfl, hconfigured⟩

/-- What user space heard last, once a run has come to rest. -/
theorem shown_state {es : List (Event ι)}
    (hplain : AllSteps (step p) (PlainStep d) (initial p) es)
    (hrun : exec (step p) (initial p) es = some s) (hquiet : Quiescent (s.dev d)) :
    shown (s.dev d) = state_show (s.dev d) ∨
      state_show (s.dev d) = .CONNECTED ∧ shown (s.dev d) = .CONFIGURED := by
  obtain ⟨htold, hreported⟩ := reported_run hplain hrun
  exact shown_cases htold hreported hquiet

section Unreported

theorem step_work (hrunning : s.crashed = false) : step p s (.work d) = android_work p d s := by
  rw [step, if_neg (by simp [hrunning])]

theorem step_setDev {c : Callback} (hrunning : s.crashed = false)
    (hrequest : (s.dev d).request = none) :
    step p s (.callback d c) = some (s.setDev d (callback c)) := by
  rw [step, if_neg (by simp [hrunning])]
  exact if_neg (by simp [hrequest])

theorem step_setupDone {r : Request} (hrunning : s.crashed = false)
    (hrequest : (s.dev d).request = some r) :
    step p s (.setupDone d) = some (s.setDev d (setupLocked r)) := by
  rw [step, if_neg (by simp [hrunning])]
  simp only [hrequest, Option.map_some]

/-- A control request that nothing interrupts. -/
theorem exec_setup (set_configuration config : Bool) (hrunning : s.crashed = false)
    (hrequest : (s.dev d).request = none) :
    ∃ t, exec (step p) s [.callback d (.setup set_configuration config), .setupDone d] = some t ∧
      t.crashed = false ∧ t.dev d = setupLocked ⟨set_configuration, (s.dev d).config⟩
        (setupHandle set_configuration config (s.dev d)) := by
  refine ⟨(s.setDev d (callback (.setup set_configuration config))).setDev d
    (setupLocked ⟨set_configuration, (s.dev d).config⟩), ?_, hrunning, ?_⟩
  · rw [exec, step_setDev hrunning hrequest, Option.bind_some, exec, step_setupDone]
    · rfl
    · exact hrunning
    · rw [setDev_same]
      rfl
  · simp only [setDev_same]
    rfl

theorem update_latency_crashed (d : ι) (latency : ℤ) (s : Usb ι R) :
    (android_pm_qos_update_latency p d latency s).crashed = s.crashed := by
  obtain ⟨r, w, heq, -⟩ := android_pm_qos_update_latency_eq p d latency s
  rw [heq]
  split_ifs <;> rfl

theorem vote_crashed (d : ι) (pm_qos_vote : ℤ) (s : Usb ι R) :
    (vote p d pm_qos_vote s).crashed = s.crashed := by
  unfold vote
  split_ifs
  · exact update_latency_crashed d _ s
  · exact update_latency_crashed d _ s
  · rfl

def Silent (next_state : DeviceState) (uevent_envp : Option DeviceState) : Prop :=
  uevent_envp = none ∨
    uevent_envp = some next_state ∧ (next_state = .SUSPENDED ∨ next_state = .RESUMED)

theorem workCheck_silent {r : Running} (h : Silent s.next_state r.uevent_envp) :
    workCheck d r s = s.setRunning d (some { r with phase := .notify }) := by
  have hmissed : missed s.last_uevent r.uevent_envp = false := by
    rcases h with hnone | ⟨hsome, hsuspended | hresumed⟩
    · simp [missed, hnone]
    · simp [missed, hsome, hsuspended]
    · simp [missed, hsome, hresumed]
  simp [workCheck, hmissed]

theorem workNotify_silent {r : Running} (h : Silent s.next_state r.uevent_envp) :
    workNotify d r s = s.setRunning d none := by
  unfold workNotify
  rcases h with hnone | ⟨hsome, hsuspended | hresumed⟩
  · rw [hnone]
  · simp [hsome, hsuspended]
  · simp [hsome, hresumed]

theorem workLocked_dev (d : ι) (s : Usb ι R) :
    (workLocked d (workBegin d s)).dev d = { s.dev d with
      work := false
      sw_connected := (s.dev d).connected
      sw_suspended := (s.dev d).suspended
      running := some ⟨.vote, (snapshot (s.dev d)).1, (snapshot (s.dev d)).2⟩ } := by
  simp only [workLocked, workBegin, setDev_same]
  rfl

/-- What a work does that nothing interrupts. -/
theorem exec_wholeWork (hrunning : s.crashed = false) (hidle : (s.dev d).running = none)
    (hwork : (s.dev d).work = true) :
    exec (step p) s (wholeWork d) =
      some (workNotify d ⟨.notify, (snapshot (s.dev d)).1, (snapshot (s.dev d)).2⟩
        (workCheck d ⟨.check, (snapshot (s.dev d)).1, (snapshot (s.dev d)).2⟩
          (workVote p d ⟨.vote, (snapshot (s.dev d)).1, (snapshot (s.dev d)).2⟩
            (workLocked d (workBegin d s))))) := by
  have hlocked := workLocked_dev d s
  have hbegin : android_work p d s = some (workBegin d s) := by
    simp only [android_work, hidle, hwork, if_true]
  have hlock : android_work p d (workBegin d s) = some (workLocked d (workBegin d s)) := by
    simp only [android_work, workBegin, setDev_same]
  have hrunning' : (workLocked d (workBegin d s)).crashed = false := hrunning
  generalize workLocked d (workBegin d s) = u at hlocked hlock hrunning'
  generalize snapshot (s.dev d) = event at hlocked ⊢
  have hvote : android_work p d u = some (workVote p d ⟨.vote, event.1, event.2⟩ u) := by
    simp only [android_work, hlocked]
  have hcheck : android_work p d (workVote p d ⟨.vote, event.1, event.2⟩ u) =
      some (workCheck d ⟨.check, event.1, event.2⟩ (workVote p d ⟨.vote, event.1, event.2⟩ u)) := by
    simp only [android_work, workVote, setDev_same]
  have hvoted : (workVote p d ⟨.vote, event.1, event.2⟩ u).crashed = false :=
    (vote_crashed d event.2 u).trans hrunning'
  generalize workVote p d ⟨.vote, event.1, event.2⟩ u = v at hvote hcheck hvoted ⊢
  have hnotify : android_work p d (workCheck d ⟨.check, event.1, event.2⟩ v) =
      some (workNotify d ⟨.notify, event.1, event.2⟩
        (workCheck d ⟨.check, event.1, event.2⟩ v)) := by
    simp only [android_work, workCheck, setDev_same]
  show exec (step p) s [.work d, .work d, .work d, .work d, .work d] = _
  rw [exec, step_work hrunning, hbegin, Option.bind_some, exec,
    step_work (s := workBegin d s) hrunning, hlock, Option.bind_some, exec, step_work hrunning',
    hvote, Option.bind_some, exec, step_work hvoted, hcheck, Option.bind_some, exec,
    step_work (s := workCheck d ⟨.check, event.1, event.2⟩ v) hvoted, hnotify]
  rfl

/-- A work that finds nothing to tell notes the state of the device and ends. -/
theorem exec_silent (hrunning : s.crashed = false) (hidle : (s.dev d).running = none)
    (hwork : (s.dev d).work = true)
    (hsilent : (snapshot (s.dev d)).1 = none ∨
      ∃ e, (snapshot (s.dev d)).1 = some e ∧ (e = .SUSPENDED ∨ e = .RESUMED)) :
    ∃ t, exec (step p) s (wholeWork d) = some t ∧ t.crashed = false ∧
      t.dev d = { s.dev d with
        work := false
        sw_connected := (s.dev d).connected
        sw_suspended := (s.dev d).suspended
        curr_pm_qos_state := (t.dev d).curr_pm_qos_state
        pm_qos_work := (t.dev d).pm_qos_work
        pm_qos_req_dma := (t.dev d).pm_qos_req_dma } := by
  have hexec := exec_wholeWork (p := p) hrunning hidle hwork
  have hlocked := workLocked_dev d s
  have hsilent' : Silent (workLocked d (workBegin d s)).next_state (snapshot (s.dev d)).1 := by
    have hnext : (workLocked d (workBegin d s)).next_state =
        (snapshot (s.dev d)).1.getD s.next_state := by
      simp only [workLocked, workBegin, setDev_same]
      rfl
    rw [hnext]
    rcases hsilent with hnone | ⟨e, hsome, hstate⟩
    · exact Or.inl hnone
    · refine Or.inr ⟨?_, ?_⟩
      · rw [hsome]
        rfl
      · rwa [hsome]
  have hrunning' : (workLocked d (workBegin d s)).crashed = false := hrunning
  generalize workLocked d (workBegin d s) = u at hexec hlocked hsilent' hrunning'
  generalize snapshot (s.dev d) = event at hexec hlocked hsilent'
  have hbus := sameBus_vote (p := p) d event.2 u
  have hdev := hbus.dev d
  rw [hlocked] at hdev
  have hvoted : Silent (vote p d event.2 u).next_state event.1 := hbus.next_state.symm ▸ hsilent'
  have hcrashed := (vote_crashed (p := p) d event.2 u).trans hrunning'
  unfold workVote at hexec
  generalize vote p d event.2 u = v at hexec hdev hvoted hcrashed
  have hcheck := workCheck_silent (d := d) (r := ⟨.check, event.1, event.2⟩)
    (s := v.setRunning d (some ⟨.check, event.1, event.2⟩)) hvoted
  have hnotify := workNotify_silent (d := d) (r := ⟨.notify, event.1, event.2⟩)
    (s := (v.setRunning d (some ⟨.check, event.1, event.2⟩)).setRunning d
      (some ⟨.notify, event.1, event.2⟩)) hvoted
  rw [hcheck, hnotify] at hexec
  refine ⟨_, hexec, hcrashed, ?_⟩
  simp only [setDev_same]
  rw [hdev, ← hidle]

def reset (d : ι) : List (Event ι) :=
  [.callback d (.disconnect false), .callback d (.setup false false), .setupDone d] ++ wholeWork d

def configureSuspend (d : ι) : List (Event ι) :=
  [.callback d (.setup true true), .setupDone d, .callback d .suspend] ++ wholeWork d

def resume (d : ι) : List (Event ι) := .callback d .resume :: wholeWork d

omit [DecidableEq ι] in
theorem quiescent_connected (hreported : Reported s.last_uevent (s.dev d))
    (hquiet : Quiescent (s.dev d)) : (s.dev d).sw_connected = (s.dev d).connected := by
  by_contra hne
  rcases hreported.connected (Ne.symm hne) with hwork | ⟨r, hr, -⟩
  · rw [hquiet.work] at hwork
    cases hwork
  · rw [hquiet.running] at hr
    cases hr

/-- A reset of a configured device leaves it connected while user space still takes
it for configured. -/
theorem reset_unreported {es : List (Event ι)}
    (hplain : AllSteps (step p) (PlainStep d) (initial p) es)
    (hrun : exec (step p) (initial p) es = some s) (hrunning : s.crashed = false)
    (hquiet : Quiescent (s.dev d)) (hconfig : (s.dev d).config = true) :
    ∃ t, exec (step p) s (reset d) = some t ∧ Quiescent (t.dev d) ∧
      (t.dev d).sent = (s.dev d).sent ∧ state_show (t.dev d) = .CONNECTED ∧
      shown (t.dev d) = .CONFIGURED := by
  obtain ⟨htold, hreported⟩ := reported_run hplain hrun
  have hconnected := hreported.config hconfig
  have hsw : (s.dev d).sw_connected = true :=
    (quiescent_connected hreported hquiet).trans hconnected
  obtain ⟨u, hu, hcrashed, hdev⟩ : ∃ u, exec (step p) s [.callback d (.disconnect false),
      .callback d (.setup false false), .setupDone d] = some u ∧ u.crashed = false ∧
      u.dev d = { s.dev d with config := false, connected := true, work := true } := by
    obtain ⟨u, hu, hcrashed, hdev⟩ := exec_setup (p := p) (d := d)
      (s := s.setDev d (callback (.disconnect false))) false false hrunning
      (by rw [setDev_same]; exact hquiet.request)
    refine ⟨u, ?_, hcrashed, ?_⟩
    · rw [exec, step_setDev hrunning hquiet.request]
      exact hu
    · rw [hdev, setDev_same]
      simp [setupLocked, setupHandle, callback, android_disconnect, hquiet.request]
  obtain ⟨t, ht, -, hdone⟩ := exec_silent (p := p) (d := d) hcrashed
    (by rw [hdev]; exact hquiet.running) (by rw [hdev]) (by
      left
      simp [hdev, snapshot, hsw])
  have hshown := shown_cases htold hreported hquiet
  rw [state_show, if_pos hconfig] at hshown
  rw [hdev] at hdone
  refine ⟨t, ?_, ?_, ?_, ?_, ?_⟩
  · rw [reset, exec_append _ hu, ht]
  · rw [hdone]
    exact ⟨rfl, hquiet.running, hquiet.request⟩
  · rw [hdone]
  · rw [hdone]
    rfl
  · rw [hdone]
    show shown (s.dev d) = _
    rcases hshown with hconfigured | ⟨-, hconfigured⟩
    · exact hconfigured
    · exact hconfigured

/-- A suspend that comes before the work keeps user space from hearing of the
configuration, and so does the resume that follows. -/
theorem suspend_unreported {es : List (Event ι)}
    (hplain : AllSteps (step p) (PlainStep d) (initial p) es)
    (hrun : exec (step p) (initial p) es = some s) (hrunning : s.crashed = false)
    (hquiet : Quiescent (s.dev d)) (hconnected : (s.dev d).connected = true)
    (hconfig : (s.dev d).config = false) :
    ∃ t u, exec (step p) s (configureSuspend d) = some t ∧ exec (step p) t (resume d) = some u ∧
      state_show (t.dev d) = .CONFIGURED ∧ (t.dev d).sent = (s.dev d).sent ∧
      state_show (u.dev d) = .CONFIGURED ∧ (u.dev d).sent = (s.dev d).sent ∧
      Quiescent (u.dev d) := by
  have hreported := (reported_run hplain hrun).2
  have hsw := quiescent_connected hreported hquiet
  obtain ⟨v, hv, hcrashed, hdev⟩ := exec_setup (p := p) (d := d) true true hrunning hquiet.request
  have hset : v.dev d = { s.dev d with config := true, work := true } := by
    rw [hdev]
    simp [setupLocked, setupHandle, hconnected, hconfig, hquiet.request]
  have hsuspend : step p v (.callback d .suspend) = some (v.setDev d (callback .suspend)) :=
    step_setDev hcrashed (by rw [hset]; exact hquiet.request)
  have hsuspended : (v.setDev d (callback .suspend)).dev d =
      { s.dev d with config := true, work := true, suspended := true } := by
    rw [setDev_same, hset]
    simp [callback, android_suspend, hreported.awake.1]
  obtain ⟨t, ht, hcrashed', hdone⟩ := exec_silent (p := p) (d := d)
    (s := v.setDev d (callback .suspend)) hcrashed (by rw [hsuspended]; exact hquiet.running)
    (by rw [hsuspended]) (by
      right
      refine ⟨.SUSPENDED, ?_, Or.inl rfl⟩
      rw [hsuspended]
      simp [snapshot, hreported.awake.2])
  rw [hsuspended] at hdone
  have hresumed : (t.setDev d (callback .resume)).dev d =
      { t.dev d with work := true, suspended := false } := by
    rw [setDev_same, hdone]
    rfl
  have hrequest : (t.dev d).request = none := by
    rw [hdone]
    exact hquiet.request
  obtain ⟨u, hu, -, hend⟩ := exec_silent (p := p) (d := d)
    (s := t.setDev d (callback .resume)) hcrashed'
    (by rw [hresumed, hdone]; exact hquiet.running) (by rw [hresumed]) (by
      right
      refine ⟨.RESUMED, ?_, Or.inr rfl⟩
      rw [hresumed, hdone]
      simp [snapshot])
  rw [hresumed, hdone] at hend
  refine ⟨t, u, ?_, ?_, ?_, ?_, ?_, ?_, ?_⟩
  · show exec (step p) s ([.callback d (.setup true true), .setupDone d] ++
      .callback d .suspend :: wholeWork d) = some t
    rw [exec_append _ hv, exec, hsuspend]
    exact ht
  · rw [resume, exec, step_setDev hcrashed' hrequest]
    exact hu
  · rw [hdone]
    rfl
  · rw [hdone]
  · rw [hend]
    rfl
  · rw [hend]
  · rw [hend]
    exact ⟨rfl, hquiet.running, hquiet.request⟩

end Unreported

section Examples

def connect (d : ι) : List (Event ι) :=
  .callback d (.setup false false) :: .setupDone d :: wholeWork d

def configure (d : ι) : List (Event ι) :=
  .callback d (.setup true true) :: .setupDone d :: wholeWork d

theorem plain_request {set_configuration config : Bool}
    (hplain : Plain (s.dev d) (.setup set_configuration config)) :
    AllSteps (step p) (PlainStep d) s
      (.callback d (.setup set_configuration config) :: .setupDone d :: wholeWork d) := by
  intro t _
  refine ⟨⟨trivial, ?_⟩, allSteps_of_forall (step p) ?_ t⟩
  · intro c hc
    cases hc
    exact hplain
  · intro e he u v
    rcases List.mem_cons.mp he with rfl | hwork
    · exact ⟨trivial, fun _ h => nomatch h⟩
    · obtain rfl := List.eq_of_mem_replicate hwork
      exact ⟨rfl, fun _ h => nomatch h⟩

theorem plain_connect : AllSteps (step p) (PlainStep d) (initial p) (connect d) :=
  plain_request ⟨id, fun h => absurd h Bool.false_ne_true⟩

theorem plain_configure : AllSteps (step (noVotes Unit)) (PlainStep ()) (initial (noVotes Unit))
    (connect () ++ configure ()) := by
  apply allSteps_append (step (noVotes Unit)) plain_connect rfl
  exact plain_request ⟨fun _ => rfl, fun _ => Or.inr ⟨rfl, rfl⟩⟩

theorem shown_state_configure : ∃ s,
    exec (step (noVotes Unit)) (initial (noVotes Unit)) (connect () ++ configure ()) = some s ∧
      shown (s.dev ()) = .CONFIGURED := by
  obtain ⟨s, hrun, hquiet, hstate⟩ : ∃ s,
      exec (step (noVotes Unit)) (initial (noVotes Unit)) (connect () ++ configure ()) = some s ∧
        Quiescent (s.dev ()) ∧ state_show (s.dev ()) = .CONFIGURED := ⟨_, rfl, ⟨rfl, rfl, rfl⟩, rfl⟩
  refine ⟨s, hrun, ?_⟩
  rcases shown_state plain_configure hrun hquiet with hshown | ⟨hconnected, -⟩
  · exact hshown.trans hstate
  · rw [hstate] at hconnected
    cases hconnected

theorem reset_unreported_configure : ∃ s t,
    exec (step (noVotes Unit)) (initial (noVotes Unit)) (connect () ++ configure ()) = some s ∧
      exec (step (noVotes Unit)) s (reset ()) = some t ∧ state_show (t.dev ()) = .CONNECTED ∧
      shown (t.dev ()) = .CONFIGURED := by
  obtain ⟨s, hrun, hrunning, hquiet, hconfig⟩ : ∃ s,
      exec (step (noVotes Unit)) (initial (noVotes Unit)) (connect () ++ configure ()) = some s ∧
        s.crashed = false ∧ Quiescent (s.dev ()) ∧ (s.dev ()).config = true :=
    ⟨_, rfl, rfl, ⟨rfl, rfl, rfl⟩, rfl⟩
  obtain ⟨t, ht, -, -, hstate, hshown⟩ :=
    reset_unreported plain_configure hrun hrunning hquiet hconfig
  exact ⟨s, t, hrun, ht, hstate, hshown⟩

theorem suspend_unreported_connect : ∃ s t,
    exec (step (noVotes Unit)) (initial (noVotes Unit)) (connect ()) = some s ∧
      exec (step (noVotes Unit)) s (configureSuspend ()) = some t ∧
      state_show (t.dev ()) = .CONFIGURED ∧ (t.dev ()).sent = [.CONNECTED] := by
  obtain ⟨s, hrun, hrunning, hquiet, hconnected, hconfig, hsent⟩ : ∃ s,
      exec (step (noVotes Unit)) (initial (noVotes Unit)) (connect ()) = some s ∧
        s.crashed = false ∧ Quiescent (s.dev ()) ∧ (s.dev ()).connected = true ∧
        (s.dev ()).config = false ∧ (s.dev ()).sent = [.CONNECTED] :=
    ⟨_, rfl, rfl, ⟨rfl, rfl, rfl⟩, rfl, rfl, rfl⟩
  obtain ⟨t, -, ht, -, hstate, hkept, -, -, -⟩ :=
    suspend_unreported plain_connect hrun hrunning hquiet hconnected hconfig
  exact ⟨s, t, hrun, ht, hstate, hkept.trans hsent⟩

end Examples

end Fixed.UeventReport
