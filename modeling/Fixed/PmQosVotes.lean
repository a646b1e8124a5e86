import Fixed.UeventReport

/-!
The votes for a latency. In every run a device is sampled exactly while it votes, and
no sample divides by 0 unless a period of 0 was asked for. As long as no other device
votes, a latency request is active exactly while there is a vote, it asks for the
latency of the state the device is in, and it is never added twice, nor updated or
removed while it is not active, if requests behave as the kernel documents them. A
device votes only while it is connected, but one that is configured before the work
runs does not vote at all.
-/
namespace Fixed.PmQosVotes

open Runs UeventOrder UeventReport UsbStates

variable {ι R : Type*} {p : Platform ι R} {s t u : Usb ι R} {d : ι}

def votes (dev : UsbDev R) : PmQosState × Option ℕ × R :=
  (dev.curr_pm_qos_state, dev.pm_qos_work, dev.pm_qos_req_dma)

structure SameVotes (s t : Usb ι R) : Prop where
  last_vote : t.last_vote = s.last_vote
  warned : t.warned = s.warned
  crashed : t.crashed = s.crashed
  dev : ∀ e, votes (t.dev e) = votes (s.dev e)

theorem SameVotes.trans (h : SameVotes s t) (h' : SameVotes t u) : SameVotes s u where
  last_vote := h'.last_vote.trans h.last_vote
  warned := h'.warned.trans h.warned
  crashed := h'.crashed.trans h.crashed
  dev e := (h'.dev e).trans (h.dev e)

theorem SameVotes.curr (h : SameVotes s t) (e : ι) :
    (t.dev e).curr_pm_qos_state = (s.dev e).curr_pm_qos_state := congrArg Prod.fst (h.dev e)

theorem SameVotes.work (h : SameVotes s t) (e : ι) :
    (t.dev e).pm_qos_work = (s.dev e).pm_qos_work := congrArg (·.2.1) (h.dev e)

theorem SameVotes.request (h : SameVotes s t) (e : ι) :
    (t.dev e).pm_qos_req_dma = (s.dev e).pm_qos_req_dma := congrArg (·.2.2) (h.dev e)

theorem votes_callback (c : Callback) (dev : UsbDev R) : votes (callback c dev) = votes dev := by
  cases c with
  | suspend =>
    unfold callback android_suspend
    split_ifs <;> rfl
  | resume =>
    unfold callback android_resume
    split_ifs <;> rfl
  | attribute_store field value => cases field <;> rfl
  | _ => rfl

theorem votes_setupLocked (r : Request) (dev : UsbDev R) :
    votes (setupLocked r dev) = votes dev := by
  unfold setupLocked
  dsimp only
  split_ifs <;> rfl

variable [DecidableEq ι]

section Steps

theorem sameVotes_setDev (s : Usb ι R) (d : ι) {g : UsbDev R → UsbDev R}
    (h : ∀ dev, votes (g dev) = votes dev) : SameVotes s (s.setDev d g) where
  last_vote := rfl
  warned := rfl
  crashed := rfl
  dev e := by
    by_cases he : e = d
    · rw [he, setDev_same]
      exact h (s.dev d)
    · rw [setDev_of_ne s he]

theorem sameVotes_setRunning (s : Usb ι R) (d : ι) (running : Option Running) :
    SameVotes s (s.setRunning d running) := sameVotes_setDev s d fun _ => rfl

theorem sameVotes_workLocked (d : ι) (s : Usb ι R) : SameVotes s (workLocked d s) := by
  have hstate : SameVotes s { s with
      next_state := (snapshot (s.dev d)).1.getD s.next_state } := ⟨rfl, rfl, rfl, fun _ => rfl⟩
  refine hstate.trans ?_
  unfold workLocked
  exact sameVotes_setDev _ d fun _ => rfl

theorem sameVotes_workNotify (d : ι) (r : Running) (s : Usb ι R) :
    SameVotes s (workNotify d r s) := by
  unfold workNotify
  cases r.uevent_envp with
  | none => exact sameVotes_setDev s d fun _ => rfl
  | some uevent_envp =>
    dsimp only
    split_ifs
    · have hlast : SameVotes s { s with last_uevent := s.next_state } :=
        ⟨rfl, rfl, rfl, fun _ => rfl⟩
      refine hlast.trans (SameVotes.trans (t := Usb.setDev { s with last_uevent := s.next_state }
        d fun dev => { dev with sent := dev.sent ++ [uevent_envp] }) ?_ ?_)
      · exact sameVotes_setDev _ d fun _ => rfl
      · exact sameVotes_setDev _ d fun _ => rfl
    · exact sameVotes_setDev s d fun _ => rfl

/-- Only two kinds of steps vote. -/
theorem step_votes {e : Event ι} (h : step p s e = some t) :
    SameVotes s t ∨
      (∃ d r, e = .work d ∧ (s.dev d).running = some r ∧ r.phase = .vote ∧
        t = workVote p d r s) ∨
      (∃ d count, e = .pm_qos_work d count ∧ (s.dev d).pm_qos_work ≠ none ∧
        t = android_pm_qos_work p d count s) := by
  cases e with
  | callback d c =>
    obtain ⟨rfl, -⟩ := step_callback h
    exact Or.inl (sameVotes_setDev s d (votes_callback c))
  | setupDone d =>
    unfold step at h
    split_ifs at h
    obtain ⟨r, -, rfl⟩ := Option.map_eq_some_iff.mp h
    exact Or.inl (sameVotes_setDev s d (votes_setupLocked r))
  | work d =>
    unfold step at h
    split_ifs at h
    dsimp only [android_work] at h
    cases hr : (s.dev d).running with
    | none =>
      rw [hr] at h
      dsimp only at h
      split_ifs at h
      exact Or.inl (Option.some.inj h ▸ sameVotes_setDev s d fun _ => rfl)
    | some r =>
      rw [hr] at h
      cases hphase : r.phase with
      | lock =>
        simp only [hphase] at h
        exact Or.inl (Option.some.inj h ▸ sameVotes_workLocked d s)
      | vote =>
        simp only [hphase] at h
        exact Or.inr (Or.inl ⟨d, r, rfl, hr, hphase, (Option.some.inj h).symm⟩)
      | check =>
        simp only [hphase] at h
        exact Or.inl (Option.some.inj h ▸ sameVotes_setDev s d fun _ => rfl)
      | notify =>
        simp only [hphase] at h
        exact Or.inl (Option.some.inj h ▸ sameVotes_workNotify d r s)
  | pm_qos_work d count =>
    unfold step at h
    split_ifs at h
    dsimp only at h
    split_ifs at h with hidle
    exact Or.inr (Or.inr ⟨d, count, rfl, hidle, (Option.some.inj h).symm⟩)

end Steps

section OtherDevices

variable {e : ι}

theorem update_latency_of_ne (h : d ≠ e) (latency : ℤ) (s : Usb ι R) :
    (android_pm_qos_update_latency p e latency s).dev d = s.dev d := by
  obtain ⟨r, w, heq, -⟩ := android_pm_qos_update_latency_eq p e latency s
  rw [heq]
  split_ifs
  · rfl
  · rw [setDev_of_ne _ h]

theorem workVote_of_ne (h : d ≠ e) (r : Running) (s : Usb ι R) :
    (workVote p e r s).dev d = s.dev d := by
  unfold workVote vote
  rw [setDev_of_ne _ h]
  split_ifs
  · rw [setDev_of_ne _ h, update_latency_of_ne h]
  · rw [setDev_of_ne _ h, update_latency_of_ne h]
  · rfl

theorem pm_qos_work_of_ne (h : d ≠ e) (count : ℕ) (s : Usb ι R) :
    (android_pm_qos_work p e count s).dev d = s.dev d := by
  unfold android_pm_qos_work
  split
  · rfl
  · dsimp only
    split_ifs
    · rw [update_latency_of_ne h, setDev_of_ne _ h]
    · rw [setDev_of_ne _ h]

end OtherDevices

section Sampling

def Sampled (s : Usb ι R) : Prop :=
  ∀ d, (s.dev d).pm_qos_work = none ↔ (s.dev d).curr_pm_qos_state = .NO_USB_VOTE

theorem update_latency_dev (d : ι) (latency : ℤ) (s : Usb ι R) (e : ι) :
    ((android_pm_qos_update_latency p d latency s).dev e).curr_pm_qos_state =
        (s.dev e).curr_pm_qos_state ∧
      ((android_pm_qos_update_latency p d latency s).dev e).pm_qos_work =
        (s.dev e).pm_qos_work := by
  obtain ⟨r, w, heq, -⟩ := android_pm_qos_update_latency_eq p d latency s
  rw [heq]
  split_ifs
  · exact ⟨rfl, rfl⟩
  · by_cases he : e = d
    · rw [he, setDev_same]
      exact ⟨rfl, rfl⟩
    · rw [setDev_of_ne _ he]
      exact ⟨rfl, rfl⟩

/-- A sample leads from one state of a vote to another. -/
theorem nextSample_voting {dev : UsbDev R} (h : dev.curr_pm_qos_state ≠ .NO_USB_VOTE)
    {count n m : ℕ} {next : PmQosState} {delay : Option ℕ}
    (hnext : nextSample dev count n = some (next, delay, m)) :
    next ≠ .NO_USB_VOTE ∧ delay ≠ none := by
  unfold nextSample at hnext
  cases hcurr : dev.curr_pm_qos_state with
  | NO_USB_VOTE => exact absurd hcurr h
  | WFI =>
    simp only [hcurr] at hnext
    split_ifs at hnext <;> cases hnext <;> exact ⟨nofun, nofun⟩
  | IDLE_PC =>
    simp only [hcurr] at hnext
    split_ifs at hnext <;> cases hnext <;> exact ⟨nofun, nofun⟩
  | IDLE_PC_RPM =>
    simp only [hcurr] at hnext
    split_ifs at hnext <;> cases hnext <;> exact ⟨nofun, nofun⟩

theorem sampled_setDev (h : Sampled s) (d : ι) {g : UsbDev R → UsbDev R}
    (hg : (g (s.dev d)).pm_qos_work = none ↔ (g (s.dev d)).curr_pm_qos_state = .NO_USB_VOTE) :
    Sampled (s.setDev d g) := by
  intro e
  by_cases he : e = d
  · rw [he, setDev_same]
    exact hg
  · rw [setDev_of_ne s he]
    exact h e

theorem sampled_update_latency (h : Sampled s) (d : ι) (latency : ℤ) :
    Sampled (android_pm_qos_update_latency p d latency s) := by
  intro e
  obtain ⟨hcurr, hwork⟩ := update_latency_dev (p := p) d latency s e
  rw [hcurr, hwork]
  exact h e

theorem sampled_vote (h : Sampled s) (d : ι) (pm_qos_vote : ℤ) :
    Sampled (vote p d pm_qos_vote s) := by
  unfold vote
  split_ifs
  · exact sampled_setDev (sampled_update_latency h d _) d ⟨nofun, nofun⟩
  · exact sampled_setDev (sampled_update_latency h d _) d ⟨fun _ => rfl, fun _ => rfl⟩
  · exact h

theorem sampled_pm_qos_work (h : Sampled s) {d : ι} (count : ℕ)
    (hscheduled : (s.dev d).pm_qos_work ≠ none) : Sampled (android_pm_qos_work p d count s) := by
  have hvoting : (s.dev d).curr_pm_qos_state ≠ .NO_USB_VOTE := fun hno => hscheduled ((h d).mpr hno)
  unfold android_pm_qos_work
  split
  · exact h
  · rename_i next delay m hnext
    obtain ⟨hstate, hdelay⟩ := nextSample_voting hvoting hnext
    have hset : Sampled (({ s with no_int_sample_count := m } : Usb ι R).setDev d fun dev =>
        { dev with curr_pm_qos_state := next, pm_qos_work := delay }) :=
      sampled_setDev (s := { s with no_int_sample_count := m }) h d
        (iff_of_false hdelay hstate)
    dsimp only
    split_ifs
    · exact sampled_update_latency hset d _
    · exact hset

theorem sampled_step (s : Usb ι R) (e : Event ι) (t : Usb ι R) (h : Sampled s)
    (hstep : step p s e = some t) : Sampled t := by
  rcases step_votes hstep with hsame | ⟨d, r, -, -, -, rfl⟩ | ⟨d, count, -, hscheduled, rfl⟩
  · intro e
    rw [hsame.work, hsame.curr]
    exact h e
  · unfold workVote
    exact sampled_setDev (sampled_vote h d r.pm_qos_vote) d (sampled_vote h d r.pm_qos_vote d)
  · exact sampled_pm_qos_work h count hscheduled

end Sampling

section Division

def Nonzero : Event ι → Prop
  | .callback _ (.attribute_store .up_pm_qos_sample_sec value) => value ≠ 0
  | _ => True

structure Divides (p : Platform ι R) (s : Usb ι R) : Prop where
  given : ∀ d, (p.latencies d).given = true → (s.dev d).up_pm_qos_sample_sec ≠ 0
  idle : ∀ d, (p.latencies d).given = false → (s.dev d).curr_pm_qos_state = .NO_USB_VOTE
  running : s.crashed = false

theorem period_setDev (s : Usb ι R) (d : ι) {g : UsbDev R → UsbDev R}
    (h : ∀ dev, (g dev).up_pm_qos_sample_sec = dev.up_pm_qos_sample_sec) (e : ι) :
    ((s.setDev d g).dev e).up_pm_qos_sample_sec = (s.dev e).up_pm_qos_sample_sec := by
  by_cases he : e = d
  · rw [he, setDev_same]
    exact h (s.dev d)
  · rw [setDev_of_ne s he]

omit [DecidableEq ι] in
theorem period_sameBus (h : SameBus s t) (e : ι) :
    (t.dev e).up_pm_qos_sample_sec = (s.dev e).up_pm_qos_sample_sec := by rw [h.dev e]

theorem period_android_work (h : android_work p d s = some t) (e : ι) :
    (t.dev e).up_pm_qos_sample_sec = (s.dev e).up_pm_qos_sample_sec := by
  unfold android_work at h
  cases hr : (s.dev d).running with
  | none =>
    rw [hr] at h
    dsimp only at h
    split_ifs at h
    obtain rfl := Option.some.inj h
    unfold workBegin
    rw [period_setDev]
    exact fun _ => rfl
  | some r =>
    rw [hr] at h
    cases hphase : r.phase with
    | lock =>
      simp only [hphase] at h
      obtain rfl := Option.some.inj h
      unfold workLocked
      dsimp only
      rw [period_setDev]
      exact fun _ => rfl
    | vote =>
      simp only [hphase] at h
      obtain rfl := Option.some.inj h
      unfold workVote
      rw [period_setDev, period_sameBus (sameBus_vote d _ s)]
      exact fun _ => rfl
    | check =>
      simp only [hphase] at h
      obtain rfl := Option.some.inj h
      unfold workCheck
      rw [period_setDev]
      exact fun _ => rfl
    | notify =>
      simp only [hphase] at h
      obtain rfl := Option.some.inj h
      unfold workNotify
      cases r.uevent_envp with
      | none =>
        rw [period_setDev]
        exact fun _ => rfl
      | some uevent_envp =>
        dsimp only
        split_ifs
        · rw [period_setDev, period_setDev]
          · exact fun _ => rfl
          · exact fun _ => rfl
        · rw [period_setDev]
          exact fun _ => rfl

/-- A period only becomes 0 where that is asked for. -/
theorem period_step {e : Event ι} (h : step p s e = some t) (hnonzero : Nonzero e) (d : ι)
    (hperiod : (s.dev d).up_pm_qos_sample_sec ≠ 0) : (t.dev d).up_pm_qos_sample_sec ≠ 0 := by
  cases e with
  | callback e c =>
    obtain ⟨rfl, -⟩ := step_callback h
    by_cases hd : d = e
    · subst hd
      rw [setDev_same]
      cases c with
      | attribute_store field value =>
        cases field with
        | up_pm_qos_sample_sec => exact hnonzero
        | _ => exact hperiod
      | suspend =>
        unfold callback android_suspend
        split_ifs <;> exact hperiod
      | resume =>
        unfold callback android_resume
        split_ifs <;> exact hperiod
      | _ => exact hperiod
    · rwa [setDev_of_ne s hd]
  | setupDone e =>
    unfold step at h
    split_ifs at h
    obtain ⟨r, -, rfl⟩ := Option.map_eq_some_iff.mp h
    rw [period_setDev s e]
    · exact hperiod
    · intro dev
      unfold setupLocked
      dsimp only
      split_ifs <;> rfl
  | work e =>
    unfold step at h
    split_ifs at h
    rwa [period_android_work h]
  | pm_qos_work e count =>
    unfold step at h
    split_ifs at h
    dsimp only at h
    split_ifs at h
    obtain rfl := Option.some.inj h
    rwa [period_sameBus (sameBus_pm_qos_work e count s)]

omit [DecidableEq ι] in
theorem nextSample_ne_none {dev : UsbDev R} (h : dev.up_pm_qos_sample_sec ≠ 0) (count n : ℕ) :
    nextSample dev count n ≠ none := by
  unfold nextSample
  cases dev.curr_pm_qos_state with
  | NO_USB_VOTE => exact nofun
  | WFI =>
    dsimp only
    split_ifs <;> exact nofun
  | IDLE_PC =>
    dsimp only
    rw [if_neg h]
    split_ifs <;> exact nofun
  | IDLE_PC_RPM =>
    dsimp only
    split_ifs <;> exact nofun

theorem crashed_pm_qos_work {count : ℕ}
    (h : nextSample (s.dev d) count s.no_int_sample_count ≠ none) :
    (android_pm_qos_work p d count s).crashed = s.crashed := by
  unfold android_pm_qos_work
  split
  · rename_i hnone
    exact absurd hnone h
  · dsimp only
    split_ifs
    · rw [update_latency_crashed]
      rfl
    · rfl

/-- A device without latencies does not vote. -/
theorem idle_step {e : Event ι} (hsampled : Sampled s) (hgiven : (p.latencies d).given = false)
    (hidle : (s.dev d).curr_pm_qos_state = .NO_USB_VOTE) (hstep : step p s e = some t) :
    (t.dev d).curr_pm_qos_state = .NO_USB_VOTE := by
  rcases step_votes hstep with hsame | ⟨d', r, -, -, -, rfl⟩ | ⟨d', count, -, hscheduled, rfl⟩
  · rw [hsame.curr]
    exact hidle
  · by_cases hd : d = d'
    · subst hd
      have hvote : vote p d r.pm_qos_vote s = s := by simp [vote, hgiven]
      unfold workVote
      rw [hvote, (sameVotes_setRunning s d _).curr]
      exact hidle
    · rw [workVote_of_ne hd]
      exact hidle
  · have hd : d ≠ d' := by
      rintro rfl
      exact hscheduled ((hsampled d).mpr hidle)
    rw [pm_qos_work_of_ne hd]
    exact hidle

theorem divides_step (s : Usb ι R) (e : Event ι) (t : Usb ι R) (h : Sampled s ∧ Divides p s)
    (hstep : step p s e = some t) (hnonzero : Nonzero e) : Sampled t ∧ Divides p t := by
  obtain ⟨hsampled, hdivides⟩ := h
  refine ⟨sampled_step s e t hsampled hstep, ?_, ?_, ?_⟩
  · intro d hgiven
    exact period_step hstep hnonzero d (hdivides.given d hgiven)
  · intro d hgiven
    exact idle_step hsampled hgiven (hdivides.idle d hgiven) hstep
  · rcases step_votes hstep with hsame | ⟨d, r, -, -, -, rfl⟩ | ⟨d, count, -, hscheduled, rfl⟩
    · exact hsame.crashed.trans hdivides.running
    · exact (vote_crashed d r.pm_qos_vote s).trans hdivides.running
    · have hgiven : (p.latencies d).given = true := by
        by_contra hnot
        exact hscheduled ((hsampled d).mpr (hdivides.idle d (by simpa using hnot)))
      rw [crashed_pm_qos_work (nextSample_ne_none (hdivides.given d hgiven) _ _)]
      exact hdivides.running

/-- After every run a device is sampled exactly while it votes, and nothing has been
divided by 0 unless that was asked for. -/
theorem votes_sampled {es : List (Event ι)}
    (hrun : exec (step p) (initial p) es = some s) :
    (∀ d, (s.dev d).pm_qos_work = none ↔ (s.dev d).curr_pm_qos_state = .NO_USB_VOTE) ∧
      ((∀ e ∈ es, Nonzero e) → s.crashed = false) := by
  have hsampled : Sampled (initial p) := fun _ => iff_of_true rfl rfl
  have hdivides : Divides p (initial p) := by
    refine ⟨?_, fun _ _ => rfl, rfl⟩
    intro d hgiven
    simp [initial, UsbDev.initial, hgiven]
  refine ⟨exec_invariant (step p) sampled_step hsampled hrun, ?_⟩
  intro hnonzero
  exact (exec_invariant_of_allSteps (step p) (I := fun s => Sampled s ∧ Divides p s) divides_step
    ⟨hsampled, hdivides⟩ (allSteps_of_mem (step p) hnonzero _) hrun).2.running

end Division

section Requests

/-- No other device votes or takes a vote back. -/
def OnlyVotes (p : Platform ι R) (d : ι) (s : Usb ι R) (e : Event ι) (_ : Usb ι R) : Prop :=
  ∀ d' r, e = .work d' → (s.dev d').running = some r → r.phase = .vote →
    (p.latencies d').given = true → r.pm_qos_vote = 0 ∨ r.pm_qos_vote = 1 → d' = d

def asked (l : Latencies) : PmQosState → ℤ
  | .NO_USB_VOTE => PM_QOS_DEFAULT_VALUE
  | state => l.pm_qos_latency state

def Latencies.Real (l : Latencies) : Prop :=
  ∀ state, l.pm_qos_latency state ≠ 0 ∧ l.pm_qos_latency state ≠ PM_QOS_DEFAULT_VALUE

structure Requested (p : Platform ι R) (s : Usb ι R) (d : ι) : Prop where
  warned : s.warned = false
  active : p.pm_qos_request_active (s.dev d).pm_qos_req_dma = true ↔
    s.last_vote ≠ PM_QOS_DEFAULT_VALUE

theorem requested_update_latency (hp : p.Documented) (h : Requested p s d) (latency : ℤ) :
    Requested p (android_pm_qos_update_latency p d latency s) d := by
  obtain ⟨r, w, heq, hcall⟩ := android_pm_qos_update_latency_eq p d latency s
  rw [heq]
  split_ifs with hskip
  · exact h
  · obtain ⟨hchanged, -⟩ := not_or.mp hskip
    obtain ⟨hr, hw⟩ := hcall hp hskip
    constructor
    · show (s.warned || w) = false
      rw [h.warned, hw]
      by_cases hdefault : latency = PM_QOS_DEFAULT_VALUE
      · have hactive := h.active.mpr (hdefault ▸ Ne.symm hchanged)
        simp [hactive]
      · simp [hdefault]
    · rw [setDev_same]
      show p.pm_qos_request_active r = true ↔ _
      rw [hr]
      exact decide_eq_true_iff

theorem update_latency_last_vote {latency : ℤ} (h : latency ≠ 0) (d : ι) (s : Usb ι R) :
    (android_pm_qos_update_latency p d latency s).last_vote = latency := by
  obtain ⟨r, w, heq, -⟩ := android_pm_qos_update_latency_eq p d latency s
  rw [heq]
  split_ifs with hskip
  · exact (hskip.resolve_right h).symm
  · rfl

theorem asked_ne_zero {l : Latencies} (hreal : Latencies.Real l) (state : PmQosState) :
    asked l state ≠ 0 := by
  cases state with
  | NO_USB_VOTE =>
    show PM_QOS_DEFAULT_VALUE ≠ 0
    decide
  | _ => exact (hreal _).1

structure Voted (p : Platform ι R) (s : Usb ι R) (d : ι) : Prop where
  requested : Requested p s d
  last : s.last_vote = asked (p.latencies d) (s.dev d).curr_pm_qos_state

omit [DecidableEq ι] in
theorem Voted.sameVotes (h : Voted p s d) (hsame : SameVotes s t) : Voted p t d where
  requested := by
    refine ⟨hsame.warned.trans h.requested.warned, ?_⟩
    rw [hsame.request, hsame.last_vote]
    exact h.requested.active
  last := by rw [hsame.last_vote, hsame.curr, h.last]

/-- The request is updated where the state changes. -/
theorem Voted.setState (h : Requested p s d) {state : PmQosState}
    (hlast : s.last_vote = asked (p.latencies d) state) {g : UsbDev R → UsbDev R}
    (hcurr : (g (s.dev d)).curr_pm_qos_state = state)
    (hrequest : (g (s.dev d)).pm_qos_req_dma = (s.dev d).pm_qos_req_dma) :
    Voted p (s.setDev d g) d where
  requested := by
    refine ⟨h.warned, ?_⟩
    rw [setDev_same, hrequest]
    exact h.active
  last := by
    rw [setDev_same, hcurr]
    exact hlast

theorem voted_vote (hp : p.Documented) (hreal : Latencies.Real (p.latencies d))
    (h : Voted p s d) (pm_qos_vote : ℤ) : Voted p (vote p d pm_qos_vote s) d := by
  unfold vote
  split_ifs
  · exact Voted.setState (requested_update_latency hp h.requested _)
      (update_latency_last_vote (hreal .WFI).1 d s) rfl rfl
  · exact Voted.setState (requested_update_latency hp h.requested _)
      (update_latency_last_vote (asked_ne_zero hreal .NO_USB_VOTE) d s) rfl rfl
  · exact h

theorem voted_pm_qos_work (hp : p.Documented) (hreal : Latencies.Real (p.latencies d))
    (h : Voted p s d) (hsampled : Sampled s) (count : ℕ)
    (hscheduled : (s.dev d).pm_qos_work ≠ none) : Voted p (android_pm_qos_work p d count s) d := by
  have hvoting : (s.dev d).curr_pm_qos_state ≠ .NO_USB_VOTE :=
    fun hno => hscheduled ((hsampled d).mpr hno)
  unfold android_pm_qos_work
  split
  · exact ⟨⟨h.requested.warned, h.requested.active⟩, h.last⟩
  · rename_i next delay m hnext
    obtain ⟨hstate, -⟩ := nextSample_voting hvoting hnext
    have hasked : (p.latencies d).pm_qos_latency next = asked (p.latencies d) next := by
      cases next with
      | NO_USB_VOTE => exact absurd rfl hstate
      | _ => rfl
    have hkept : Requested p (({ s with no_int_sample_count := m } : Usb ι R).setDev d fun dev =>
        { dev with curr_pm_qos_state := next, pm_qos_work := delay }) d := by
      refine ⟨h.requested.warned, ?_⟩
      rw [setDev_same]
      exact h.requested.active
    dsimp only
    split_ifs with hchanged
    · have hupdated := requested_update_latency hp hkept ((p.latencies d).pm_qos_latency next)
      refine ⟨hupdated, ?_⟩
      rw [update_latency_last_vote (hreal next).1, (update_latency_dev d _ _ d).1, setDev_same]
      exact hasked
    · refine ⟨hkept, ?_⟩
      rw [setDev_same]
      show s.last_vote = asked (p.latencies d) next
      rw [not_not.mp hchanged]
      exact h.last

structure Alone (p : Platform ι R) (s : Usb ι R) (d : ι) : Prop where
  voted : Voted p s d
  sampled : Sampled s
  others : ∀ e, e ≠ d → (s.dev e).curr_pm_qos_state = .NO_USB_VOTE

theorem alone_step (hp : p.Documented) (hreal : Latencies.Real (p.latencies d)) (s : Usb ι R)
    (e : Event ι) (t : Usb ι R) (h : Alone p s d) (hstep : step p s e = some t)
    (honly : OnlyVotes p d s e t) : Alone p t d := by
  have hsampled := sampled_step s e t h.sampled hstep
  rcases step_votes hstep with hsame | ⟨d', r, rfl, hr, hphase, rfl⟩ |
    ⟨d', count, rfl, hscheduled, rfl⟩
  · exact ⟨h.voted.sameVotes hsame, hsampled, fun e he => (hsame.curr e).trans (h.others e he)⟩
  · by_cases hd : d' = d
    · subst hd
      refine ⟨(voted_vote hp hreal h.voted r.pm_qos_vote).sameVotes (sameVotes_setRunning _ d' _),
        hsampled, fun e he => ?_⟩
      rw [workVote_of_ne he]
      exact h.others e he
    · have hvote : vote p d' r.pm_qos_vote s = s := by
        have hnot : (p.latencies d').given = true →
            ¬ (r.pm_qos_vote = 0 ∨ r.pm_qos_vote = 1) :=
          fun hgiven hvotes => hd (honly d' r rfl hr hphase hgiven hvotes)
        unfold vote
        rw [if_neg fun hone => hnot hone.1 (Or.inr hone.2),
          if_neg fun hzero => hnot hzero.1 (Or.inl hzero.2)]
      have hsame : SameVotes s (workVote p d' r s) := by
        unfold workVote
        rw [hvote]
        exact sameVotes_setRunning s d' _
      exact ⟨h.voted.sameVotes hsame, hsampled, fun e he => (hsame.curr e).trans (h.others e he)⟩
  · have hd : d' = d := by
      by_contra hne
      exact hscheduled ((h.sampled d').mpr (h.others d' hne))
    subst hd
    refine ⟨voted_pm_qos_work hp hreal h.voted h.sampled count hscheduled, hsampled, fun e he => ?_⟩
    rw [pm_qos_work_of_ne he]
    exact h.others e he

/-- The latency request of a device after a run in which no other device votes. -/
theorem request_voted (hp : p.Documented) (hreal : Latencies.Real (p.latencies d))
    {es : List (Event ι)} (honly : AllSteps (step p) (OnlyVotes p d) (initial p) es)
    (hrun : exec (step p) (initial p) es = some s) :
    s.warned = false ∧
      (p.pm_qos_request_active (s.dev d).pm_qos_req_dma = true ↔
        (s.dev d).curr_pm_qos_state ≠ .NO_USB_VOTE) ∧
      s.last_vote = asked (p.latencies d) (s.dev d).curr_pm_qos_state := by
  have hinactive : ¬ p.pm_qos_request_active ((initial p).dev d).pm_qos_req_dma = true := by
    show ¬ p.pm_qos_request_active p.zeroed = true
    rw [hp.zeroed]
    exact Bool.false_ne_true
  have hinitial : Alone p (initial p) d :=
    ⟨⟨⟨rfl, iff_of_false hinactive fun hne => hne rfl⟩, rfl⟩, fun _ => iff_of_true rfl rfl,
      fun _ _ => rfl⟩
  obtain ⟨hvoted, -, -⟩ := exec_invariant_of_allSteps (step p) (I := fun s => Alone p s d)
    (alone_step hp hreal) hinitial honly hrun
  refine ⟨hvoted.requested.warned, ?_, hvoted.last⟩
  rw [hvoted.requested.active, hvoted.last]
  cases (s.dev d).curr_pm_qos_state with
  | NO_USB_VOTE => exact iff_of_false (fun hne => hne rfl) fun hne => hne rfl
  | _ => exact iff_of_true (hreal _).2 nofun

end Requests

section Connected

/-- The device does not vote, or the work is about to end the vote. -/
def Unvoted (dev : UsbDev R) : Prop :=
  (dev.curr_pm_qos_state = .NO_USB_VOTE ∧
      ∀ r, dev.running = some r → r.phase = .vote → r.pm_qos_vote ≠ 1) ∨
    ∃ r, dev.running = some r ∧ r.phase = .vote ∧ r.pm_qos_vote = 0

structure Connected (p : Platform ι R) (s : Usb ι R) (d : ι) : Prop where
  told : Told s d
  reported : Reported s.last_uevent (s.dev d)
  sampled : Sampled s
  idle : (p.latencies d).given = false → (s.dev d).curr_pm_qos_state = .NO_USB_VOTE
  unvoted : (s.dev d).sw_connected = false → Unvoted (s.dev d)

omit [DecidableEq ι] in
theorem Unvoted.congr {dev dev' : UsbDev R} (h : Unvoted dev)
    (hcurr : dev'.curr_pm_qos_state = dev.curr_pm_qos_state)
    (hrunning : dev'.running = dev.running) : Unvoted dev' := by
  unfold Unvoted
  rw [hcurr, hrunning]
  exact h

/-- A work that is not about to vote goes on. -/
theorem Unvoted.running {dev dev' : UsbDev R} (h : Unvoted dev)
    (hcurr : dev'.curr_pm_qos_state = dev.curr_pm_qos_state)
    (hbefore : ∀ r, dev.running = some r → r.phase ≠ .vote)
    (hafter : ∀ r, dev'.running = some r → r.phase ≠ .vote) : Unvoted dev' := by
  rcases h with ⟨hno, -⟩ | ⟨r, hr, hphase, -⟩
  · exact Or.inl ⟨hcurr.trans hno, fun r hr hphase => absurd hphase (hafter r hr)⟩
  · exact absurd hphase (hbefore r hr)

omit [DecidableEq ι] in
theorem callback_sw_connected (c : Callback) (dev : UsbDev R) :
    (callback c dev).sw_connected = dev.sw_connected := by
  cases c with
  | suspend =>
    unfold callback android_suspend
    split_ifs <;> rfl
  | resume =>
    unfold callback android_resume
    split_ifs <;> rfl
  | attribute_store field value => cases field <;> rfl
  | _ => rfl

omit [DecidableEq ι] in
theorem setupLocked_sw_connected (r : Request) (dev : UsbDev R) :
    (setupLocked r dev).sw_connected = dev.sw_connected := by
  unfold setupLocked
  dsimp only
  split_ifs <;> rfl

/-- A device that is found disconnected loses its vote. -/
theorem unvoted_workLocked (h : Connected p s d) {r : Running} (hr : (s.dev d).running = some r)
    (hphase : r.phase = .lock) (hoff : (s.dev d).connected = false) :
    Unvoted ((workLocked d s).dev d) := by
  have hconfig : ¬ (s.dev d).config = true := by
    intro hconfig
    rw [h.reported.config hconfig] at hoff
    cases hoff
  have hdev : (workLocked d s).dev d = { s.dev d with
      sw_connected := (s.dev d).connected
      sw_suspended := (s.dev d).suspended
      running := some ⟨.vote, (snapshot (s.dev d)).1, (snapshot (s.dev d)).2⟩ } := by
    unfold workLocked
    rw [setDev_same]
  rw [hdev]
  by_cases hchanged : (s.dev d).connected ≠ (s.dev d).sw_connected
  · have hon : (s.dev d).sw_connected = true := by
      rw [hoff] at hchanged
      simpa using Ne.symm hchanged
    refine Or.inr ⟨_, rfl, rfl, ?_⟩
    simp [snapshot, hconfig, hon, hoff]
  · have hsw : (s.dev d).sw_connected = false := (not_not.mp hchanged).symm.trans hoff
    refine Or.inl ⟨?_, ?_⟩
    · rcases h.unvoted hsw with ⟨hno, -⟩ | ⟨r', hr', hvote, -⟩
      · exact hno
      · rw [hr] at hr'
        rw [← Option.some.inj hr', hphase] at hvote
        cases hvote
    · intro r' hr' _
      obtain rfl := Option.some.inj hr'
      simp [snapshot, hconfig, hsw, hoff]

theorem unvoted_workVote (h : Connected p s d) {r : Running} (hr : (s.dev d).running = some r)
    (hphase : r.phase = .vote) (hsw : (s.dev d).sw_connected = false) :
    Unvoted ((workVote p d r s).dev d) := by
  refine Or.inl ⟨?_, ?_⟩
  · show ((workVote p d r s).dev d).curr_pm_qos_state = _
    unfold workVote
    rw [setDev_same]
    show ((vote p d r.pm_qos_vote s).dev d).curr_pm_qos_state = _
    by_cases hgiven : (p.latencies d).given = true
    · rcases h.unvoted hsw with ⟨hno, hone⟩ | ⟨r', hr', -, hzero⟩
      · have hnot := hone r hr hphase
        unfold vote
        rw [if_neg (by simp [hnot])]
        split_ifs
        · rw [setDev_same]
        · exact hno
      · rw [hr] at hr'
        obtain rfl := Option.some.inj hr'
        unfold vote
        rw [if_neg (by simp [hzero]), if_pos ⟨hgiven, hzero⟩, setDev_same]
    · have hvote : vote p d r.pm_qos_vote s = s := by simp [vote, hgiven]
      rw [hvote]
      exact h.idle (by simpa using hgiven)
  · unfold workVote
    rw [setDev_same]
    intro r' hr' hvote
    obtain rfl := Option.some.inj hr'
    cases hvote

theorem workNotify_dev (d : ι) (r : Running) (s : Usb ι R) :
    ∃ sent, (workNotify d r s).dev d = { s.dev d with running := none, sent := sent } := by
  unfold workNotify
  rw [setDev_same]
  cases r.uevent_envp with
  | none => exact ⟨_, rfl⟩
  | some uevent_envp =>
    dsimp only
    split_ifs
    · rw [setDev_same]
      exact ⟨_, rfl⟩
    · exact ⟨_, rfl⟩

theorem unvoted_android_work (h : Connected p s d) (hwork : android_work p d s = some t)
    (hsw : (t.dev d).sw_connected = false) : Unvoted (t.dev d) := by
  unfold android_work at hwork
  cases hr : (s.dev d).running with
  | none =>
    rw [hr] at hwork
    dsimp only at hwork
    split_ifs at hwork
    obtain rfl := Option.some.inj hwork
    unfold workBegin at hsw ⊢
    rw [setDev_same] at hsw ⊢
    refine (h.unvoted hsw).running rfl ?_ ?_
    · intro r hr'
      rw [hr] at hr'
      cases hr'
    · intro r hr' hphase
      obtain rfl := Option.some.inj hr'
      cases hphase
  | some r =>
    rw [hr] at hwork
    have hbefore : r.phase ≠ .vote → ∀ r', (s.dev d).running = some r' → r'.phase ≠ .vote := by
      intro hphase r' hr'
      rw [hr] at hr'
      exact Option.some.inj hr' ▸ hphase
    cases hphase : r.phase with
    | lock =>
      simp only [hphase] at hwork
      obtain rfl := Option.some.inj hwork
      refine unvoted_workLocked h hr hphase ?_
      unfold workLocked at hsw
      rwa [setDev_same] at hsw
    | vote =>
      simp only [hphase] at hwork
      obtain rfl := Option.some.inj hwork
      refine unvoted_workVote h hr hphase ?_
      unfold workVote at hsw
      rw [setDev_same, (sameBus_vote d r.pm_qos_vote s).dev d] at hsw
      exact hsw
    | check =>
      simp only [hphase] at hwork
      obtain rfl := Option.some.inj hwork
      unfold workCheck at hsw ⊢
      rw [setDev_same] at hsw ⊢
      refine (h.unvoted hsw).running rfl (hbefore (by simp [hphase])) ?_
      intro r' hr' hvote
      obtain rfl := Option.some.inj hr'
      cases hvote
    | notify =>
      simp only [hphase] at hwork
      obtain rfl := Option.some.inj hwork
      have hsame := sameVotes_workNotify d r s
      obtain ⟨sent, hdone⟩ := workNotify_dev d r s
      rw [hdone] at hsw
      refine (h.unvoted hsw).running (hsame.curr d) (hbefore (by simp [hphase])) ?_
      intro r' hr'
      rw [hdone] at hr'
      cases hr'

theorem connected_step (s : Usb ι R) (e : Event ι) (t : Usb ι R) (h : Connected p s d)
    (hstep : step p s e = some t) (hplain : PlainStep d s e t) : Connected p t d := by
  obtain ⟨htold, hreported⟩ := reported_step s e t ⟨h.told, h.reported⟩ hstep hplain
  refine ⟨htold, hreported, sampled_step s e t h.sampled hstep,
    fun hgiven => idle_step h.sampled hgiven (h.idle hgiven) hstep, ?_⟩
  intro hsw
  cases e with
  | callback e c =>
    obtain ⟨rfl, -⟩ := step_callback hstep
    by_cases he : d = e
    · subst he
      rw [setDev_same] at hsw ⊢
      rw [callback_sw_connected] at hsw
      exact (h.unvoted hsw).congr (congrArg Prod.fst (votes_callback c (s.dev d)))
        (callback_running c (s.dev d)).1
    · rw [setDev_of_ne s he] at hsw ⊢
      exact h.unvoted hsw
  | setupDone e =>
    unfold step at hstep
    split_ifs at hstep
    obtain ⟨r, -, rfl⟩ := Option.map_eq_some_iff.mp hstep
    by_cases he : d = e
    · subst he
      rw [setDev_same] at hsw ⊢
      rw [setupLocked_sw_connected] at hsw
      exact (h.unvoted hsw).congr (congrArg Prod.fst (votes_setupLocked r (s.dev d)))
        (setupLocked_running r (s.dev d)).1
    · rw [setDev_of_ne s he] at hsw ⊢
      exact h.unvoted hsw
  | work e =>
    obtain rfl : e = d := hplain.1
    unfold step at hstep
    split_ifs at hstep
    exact unvoted_android_work h hstep hsw
  | pm_qos_work e count =>
    unfold step at hstep
    split_ifs at hstep
    dsimp only at hstep
    split_ifs at hstep with hscheduled
    obtain rfl := Option.some.inj hstep
    by_cases he : d = e
    · subst he
      have hbus := (sameBus_pm_qos_work (p := p) d count s).dev d
      have hkept : ((android_pm_qos_work p d count s).dev d).sw_connected =
          (s.dev d).sw_connected := by rw [hbus]
      have hrunning : ((android_pm_qos_work p d count s).dev d).running =
          (s.dev d).running := by rw [hbus]
      rw [hkept] at hsw
      rcases h.unvoted hsw with ⟨hno, -⟩ | hvote
      · exact absurd ((h.sampled d).mpr hno) hscheduled
      · rw [← hrunning] at hvote
        exact Or.inr hvote
    · rw [pm_qos_work_of_ne he] at hsw ⊢
      exact h.unvoted hsw

theorem connected_run {es : List (Event ι)}
    (hplain : AllSteps (step p) (PlainStep d) (initial p) es)
    (hrun : exec (step p) (initial p) es = some s) : Connected p s d := by
  obtain ⟨htold, hreported⟩ := reported_run (d := d) (show AllSteps (step p) (PlainStep d)
    (initial p) [] from trivial) rfl
  have hinitial : Connected p (initial p) d :=
    ⟨htold, hreported, fun _ => iff_of_true rfl rfl, fun _ => rfl, fun _ => Or.inl ⟨rfl, nofun⟩⟩
  exact exec_invariant_of_allSteps (step p) (I := fun s => Connected p s d) connected_step hinitial
    hplain hrun

omit [DecidableEq ι] in
theorem Unvoted.quiescent {dev : UsbDev R} (h : Unvoted dev) (hquiet : Quiescent dev) :
    dev.curr_pm_qos_state = .NO_USB_VOTE := by
  rcases h with ⟨hno, -⟩ | ⟨r, hr, -, -⟩
  · exact hno
  · rw [hquiet.running] at hr
    cases hr

/-- Once a run has come to rest, a device that votes is connected. -/
theorem votes_connected {es : List (Event ι)}
    (hplain : AllSteps (step p) (PlainStep d) (initial p) es)
    (hrun : exec (step p) (initial p) es = some s) (hquiet : Quiescent (s.dev d))
    (hvotes : (s.dev d).curr_pm_qos_state ≠ .NO_USB_VOTE) : (s.dev d).connected = true := by
  have h := connected_run hplain hrun
  rw [← quiescent_connected h.reported hquiet]
  by_contra hoff
  exact hvotes ((h.unvoted (by simpa using hoff)).quiescent hquiet)

/-- A work that does not vote, and that nothing interrupts. -/
theorem exec_unvoted (hrunning : s.crashed = false) (hidle : (s.dev d).running = none)
    (hwork : (s.dev d).work = true) (hvote : (snapshot (s.dev d)).2 = -1) :
    ∃ t sent, exec (step p) s (wholeWork d) = some t ∧ t.dev d = { s.dev d with
      work := false
      sw_connected := (s.dev d).connected
      sw_suspended := (s.dev d).suspended
      running := none
      sent := sent } := by
  have hexec := exec_wholeWork (p := p) hrunning hidle hwork
  have hlocked := workLocked_dev d s
  generalize workLocked d (workBegin d s) = u at hexec hlocked
  rw [hvote] at hexec hlocked
  generalize (snapshot (s.dev d)).1 = event at hexec hlocked
  have hkept : workVote p d ⟨.vote, event, -1⟩ u = u.setRunning d (some ⟨.check, event, -1⟩) := by
    simp [workVote, vote]
  rw [hkept] at hexec
  obtain ⟨sent, hdone⟩ := workNotify_dev d ⟨.notify, event, -1⟩
    (workCheck d ⟨.check, event, -1⟩ (u.setRunning d (some ⟨.check, event, -1⟩)))
  refine ⟨_, sent, hexec, ?_⟩
  rw [hdone, workCheck, setDev_same, setDev_same, hlocked]

def quickConfigure (d : ι) : List (Event ι) :=
  [.callback d (.setup false false), .setupDone d] ++
    ([.callback d (.setup true true), .setupDone d] ++ wholeWork d)

/-- A device that is configured before the work runs does not vote, however long it
stays connected. -/
theorem vote_missed {es : List (Event ι)}
    (hplain : AllSteps (step p) (PlainStep d) (initial p) es)
    (hrun : exec (step p) (initial p) es = some s) (hrunning : s.crashed = false)
    (hquiet : Quiescent (s.dev d)) (hoff : (s.dev d).connected = false) :
    ∃ t, exec (step p) s (quickConfigure d) = some t ∧ Quiescent (t.dev d) ∧
      state_show (t.dev d) = .CONFIGURED ∧ (t.dev d).curr_pm_qos_state = .NO_USB_VOTE := by
  have h := connected_run hplain hrun
  have hno := (h.unvoted ((quiescent_connected h.reported hquiet).trans hoff)).quiescent hquiet
  have hconfig : (s.dev d).config = false := by
    by_contra hset
    rw [h.reported.config (by simpa using hset)] at hoff
    cases hoff
  obtain ⟨u, hu, hcrashed, hdev⟩ := exec_setup (p := p) (d := d) false false hrunning hquiet.request
  have hset : u.dev d = { s.dev d with connected := true, work := true } := by
    rw [hdev]
    simp [setupLocked, setupHandle, hoff, hconfig, hquiet.request]
  obtain ⟨v, hv, hcrashed', hdev'⟩ := exec_setup (p := p) (d := d) (s := u) true true hcrashed
    (by rw [hset]; exact hquiet.request)
  have hset' : v.dev d = { s.dev d with connected := true, config := true, work := true } := by
    rw [hdev', hset]
    simp [setupLocked, setupHandle, hconfig, hquiet.request]
  have hsnapshot : snapshot (v.dev d) = (some .CONFIGURED, -1) := by
    rw [hset']
    simp [snapshot, h.reported.awake.1, h.reported.awake.2]
  obtain ⟨t, sent, hwork, hdone⟩ := exec_unvoted (p := p) (d := d) hcrashed'
    (by rw [hset']; exact hquiet.running) (by rw [hset']) (by rw [hsnapshot])
  rw [hset'] at hdone
  refine ⟨t, ?_, ?_, ?_, ?_⟩
  · rw [quickConfigure, exec_append _ hu, exec_append _ hv]
    exact hwork
  · rw [hdone]
    exact ⟨rfl, rfl, hquiet.request⟩
  · rw [hdone]
    rfl
  · rw [hdone]
    exact hno

end Connected

section Examples

def someVotes : Platform Bool (Option ℤ) where
  __ := noVotes Bool
  latencies d := ⟨d, fun state =>
    match state with
    | .WFI => 10
    | .IDLE_PC => 100
    | .IDLE_PC_RPM | .NO_USB_VOTE => 1000⟩

def sampledTwice : List (Event Bool) :=
  connect false ++ connect true ++ [.pm_qos_work true 5, .pm_qos_work true 80]

theorem votes_sampled_sampledTwice : ∃ s,
    exec (step someVotes) (initial someVotes) sampledTwice = some s ∧
      (s.dev true).pm_qos_work ≠ none ∧ (s.dev false).pm_qos_work = none ∧ s.crashed = false := by
  obtain ⟨s, hrun, hcurr, hother⟩ : ∃ s,
      exec (step someVotes) (initial someVotes) sampledTwice = some s ∧
        (s.dev true).curr_pm_qos_state = .WFI ∧
        (s.dev false).curr_pm_qos_state = .NO_USB_VOTE := ⟨_, rfl, rfl, rfl⟩
  obtain ⟨hsampled, hrunning⟩ := votes_sampled hrun
  refine ⟨s, hrun, ?_, (hsampled false).mpr hother, hrunning ?_⟩
  · rw [Ne, hsampled, hcurr]
    exact nofun
  · simp [sampledTwice, connect, wholeWork, Nonzero]

theorem someVotes_documented : someVotes.Documented where
  zeroed := rfl
  add value r := by cases r <;> exact ⟨rfl, rfl⟩
  update value r := by cases r <;> exact ⟨rfl, rfl⟩
  remove r := by cases r <;> exact ⟨rfl, rfl⟩

theorem request_voted_sampledTwice : ∃ s,
    exec (step someVotes) (initial someVotes) sampledTwice = some s ∧
      s.warned = false ∧ ((s.dev true).pm_qos_req_dma).isSome = true ∧ s.last_vote = 10 := by
  obtain ⟨s, hrun, hcurr⟩ : ∃ s,
      exec (step someVotes) (initial someVotes) sampledTwice = some s ∧
        (s.dev true).curr_pm_qos_state = .WFI := ⟨_, rfl, rfl⟩
  have hreal : Latencies.Real (someVotes.latencies true) := by
    intro state
    cases state <;> decide
  have honly : AllSteps (step someVotes) (OnlyVotes someVotes true) (initial someVotes)
      sampledTwice := by
    refine allSteps_of_forall (step someVotes) (fun e _ s t d r _ _ _ hgiven _ => ?_) _
    exact hgiven
  obtain ⟨hwarned, hactive, hlast⟩ := request_voted someVotes_documented hreal honly hrun
  refine ⟨s, hrun, hwarned, hactive.mpr ?_, ?_⟩
  · rw [hcurr]
    exact nofun
  · rw [hlast, hcurr]
    rfl

theorem votes_connected_connect : ∃ s,
    exec (step someVotes) (initial someVotes) (connect true) = some s ∧
      (s.dev true).connected = true := by
  obtain ⟨s, hrun, hquiet, hcurr⟩ : ∃ s,
      exec (step someVotes) (initial someVotes) (connect true) = some s ∧
        Quiescent (s.dev true) ∧ (s.dev true).curr_pm_qos_state = .WFI :=
    ⟨_, rfl, ⟨rfl, rfl, rfl⟩, rfl⟩
  exact ⟨s, hrun, votes_connected plain_connect hrun hquiet (by rw [hcurr]; exact nofun)⟩

theorem vote_missed_initial : ∃ t,
    exec (step someVotes) (initial someVotes) (quickConfigure true) = some t ∧
      state_show (t.dev true) = .CONFIGURED ∧
      (t.dev true).curr_pm_qos_state = .NO_USB_VOTE := by
  obtain ⟨t, ht, -, hstate, hno⟩ := vote_missed (d := true)
    (show AllSteps (step someVotes) (PlainStep true) (initial someVotes) [] from trivial) rfl
    rfl ⟨rfl, rfl, rfl⟩ rfl
  exact ⟨t, ht, hstate, hno⟩

end Examples

end Fixed.PmQosVotes
