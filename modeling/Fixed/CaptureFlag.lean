import Fixed.CameraPipeline
import Fixed.Runs

/-!
When the capture flag is down again. Only a sent still that finds the counter of
its output at zero clears it, but a still can also leave the event thread by
being skipped or for want of a client. Over a run the flag is down whenever no
requested still is left exactly when every step that leaves none, with the flag
up, is the callback of a sent still that finds that counter at zero.
-/
namespace Fixed.CaptureFlag

open CameraPipeline Runs

def outstanding (s : State) : ℕ :=
  s.due + s.flying.countP (·.requested) + s.calling.countP (·.requested)

def Settled (s : State) : Prop := outstanding s = 0 → s.capture_busy = 0

def Disposes (p : Platform) (s : State) : Event → Prop
  | .send_output o => o.requested = true ∧ o.inBounds p ∧
      (s.skip_frames ≠ 0 ∨ s.client o.outId o.frmType o.frmFmt = none)
  | .freed t => t.requested = true
  | _ => False

/-- The event is the callback of a sent still that finds no other frame waiting. -/
def Clears (s : State) : Event → Prop
  | .freed t => t.Last s
  | _ => False

/-- An accepted capture leads to a still, and with the flag up the last requested
still is disposed of by a callback that finds no other frame waiting. -/
def LastIsSent (p : Platform) (s : State) (e : Event) (_ : State) : Prop :=
  (∀ c, e = .command c → c.captures = true → s.capture_busy = 0 → 0 < outstanding s + c.stills) ∧
    (s.capture_busy ≠ 0 → outstanding s = 1 → Disposes p s e → Clears s e)

/-- With the flag down a capture command is accepted. -/
theorem capture_accepted (p : Platform) {s : State} {c : Command} (hc : c.captures = true)
    (hbusy : s.capture_busy = 0) : (app_guzzi_command_callback p s c).capture_busy = 1 := by
  simp [app_guzzi_command_callback, hc, hbusy]

section Law

variable {p : Platform} {s t : State} {e : Event}

/-- A step that neither sets the flag nor lets a requested still go. -/
theorem keeps (hs : Settled s) (hcommand : ∀ c, e ≠ .command c) (hdisposes : ¬ Disposes p s e)
    (hout : outstanding t = outstanding s) (hbusy : t.capture_busy ≠ 0 → s.capture_busy ≠ 0) :
    LastIsSent p s e t ∧ Settled t := by
  refine ⟨⟨fun c hc => absurd hc (hcommand c), fun _ _ hd => absurd hd hdisposes⟩, fun hzero => ?_⟩
  by_contra hup
  exact hbusy hup (hs (hout ▸ hzero))

/-- A step that lets a requested still go and does not clear the flag. -/
theorem disposes_law (hcommand : ∀ c, e ≠ .command c) (hdisposes : Disposes p s e)
    (hclears : ¬ Clears s e) (hout : outstanding t + 1 = outstanding s)
    (hbusy : t.capture_busy = s.capture_busy) :
    LastIsSent p s e t ∧ Settled t ∨ ¬ LastIsSent p s e t ∧ ¬ Settled t := by
  by_cases hlast : s.capture_busy ≠ 0 ∧ outstanding s = 1
  · obtain ⟨hup, hone⟩ := hlast
    refine Or.inr ⟨fun hg => hclears (hg.2 hup hone hdisposes), fun hi => hup ?_⟩
    rw [← hbusy]
    exact hi (by omega)
  · refine Or.inl ⟨⟨fun c hc => absurd hc (hcommand c), fun hup hone _ => ?_⟩, fun hzero => ?_⟩
    · exact absurd ⟨hup, hone⟩ hlast
    · rw [hbusy]
      by_contra hup
      exact hlast ⟨hup, by omega⟩

end Law

theorem countP_erase_of_mem {l : List Transmission} {t : Transmission} (h : t ∈ l) :
    l.countP (·.requested) = (l.erase t).countP (·.requested) + if t.requested then 1 else 0 := by
  rw [(List.perm_cons_erase h).countP_eq, List.countP_cons]

theorem command_law (p : Platform) (s : State) (c : Command) (hs : Settled s) :
    let t := app_guzzi_command_callback p s c
    LastIsSent p s (.command c) t ∧ Settled t ∨ ¬ LastIsSent p s (.command c) t ∧ ¬ Settled t := by
  intro t
  by_cases hacc : c.captures = true ∧ s.capture_busy = 0
  · obtain ⟨hc, hbusy⟩ := hacc
    have hup : t.capture_busy = 1 := capture_accepted p hc hbusy
    have hout : outstanding t = outstanding s + c.stills := by
      simp only [t, app_guzzi_command_callback, hc, hbusy, outstanding]
      simp only [decide_true, Bool.and_self, if_true]
      omega
    by_cases hstill : 0 < outstanding s + c.stills
    · refine Or.inl ⟨⟨fun d hd _ _ => ?_, fun _ _ hd => hd.elim⟩, fun hzero => by omega⟩
      obtain rfl := Event.command.inj hd
      exact hstill
    · refine Or.inr ⟨fun hg => hstill (hg.1 c rfl hc hbusy), fun hi => ?_⟩
      have hdown := hi (by omega)
      omega
  · have hkeep : t = s := by
      simp only [t, app_guzzi_command_callback]
      rw [if_neg]
      simpa using hacc
    refine Or.inl ⟨⟨fun d hd hc hbusy => ?_, fun _ _ hd => hd.elim⟩, hkeep ▸ hs⟩
    obtain rfl := Event.command.inj hd
    exact absurd ⟨hc, hbusy⟩ hacc

/-- What becomes of the requested stills when a frame is taken from the pipeline. -/
theorem outstanding_take {s : State} {o : Output} (ho : o.Possible s) :
    outstanding (s.take o) + (if o.requested then 1 else 0) = outstanding s := by
  obtain ⟨-, hreq⟩ := ho
  simp only [outstanding, State.take]
  split
  · rename_i h
    obtain ⟨-, hdue⟩ := hreq h
    omega
  · omega

/-- A frame that is skipped or dropped. -/
theorem unsent_law {p : Platform} {s t : State} {o : Output} (hs : Settled s) (ho : o.Possible s)
    (hin : o.inBounds p)
    (hunsent : s.skip_frames ≠ 0 ∨ s.client o.outId o.frmType o.frmFmt = none)
    (hout : outstanding t = outstanding (s.take o)) (hbusy : t.capture_busy = s.capture_busy) :
    LastIsSent p s (.send_output o) t ∧ Settled t ∨
      ¬ LastIsSent p s (.send_output o) t ∧ ¬ Settled t := by
  have htake := outstanding_take ho
  by_cases hreq : o.requested = true
  · have hdisposes : Disposes p s (.send_output o) := ⟨hreq, hin, hunsent⟩
    refine disposes_law (by simp) hdisposes id ?_ hbusy
    rw [if_pos hreq] at htake
    omega
  · refine Or.inl (keeps hs (by simp) (fun hd => hreq hd.1) ?_ (by simp [hbusy]))
    rw [if_neg hreq] at htake
    omega

theorem outstanding_transmit {s : State} {o : Output} (ho : o.Possible s) (client : ℕ) :
    outstanding (transmit s o client) = outstanding s := by
  unfold transmit
  split
  · have htake := outstanding_take ho
    simp only [outstanding, State.take, List.countP_append, List.countP_singleton] at htake ⊢
    omega
  · rfl

theorem output_law {p : Platform} {s t : State} {o : Output} (hs : Settled s) (ho : o.Possible s)
    (ht : Handled p s o t) :
    LastIsSent p s (.send_output o) t ∧ Settled t ∨
      ¬ LastIsSent p s (.send_output o) t ∧ ¬ Settled t := by
  cases ht with
  | skipped hin hskip => exact unsent_law hs ho hin (Or.inl hskip) rfl rfl
  | dropped hin hskip hclient => exact unsent_law hs ho hin (Or.inr hclient) rfl rfl
  | transmitted hskip client hclient =>
    have hbusy : (transmit s o client).capture_busy = s.capture_busy := by
      unfold transmit
      split <;> rfl
    refine Or.inl (keeps hs (by simp) ?_ (outstanding_transmit ho client) (by simp [hbusy]))
    rintro ⟨-, -, hne | hnone⟩
    · exact hne hskip
    · simp [hclient] at hnone
  | refused hout => exact Or.inl (keeps hs (by simp) (fun hd => hout hd.2.1) rfl id)

theorem sent_law (p : Platform) (s : State) (f : Transmission) (hs : Settled s)
    (hf : f ∈ s.flying) :
    LastIsSent p s (.sent f) (return_frame s f) ∧ Settled (return_frame s f) := by
  refine keeps hs (by simp) (fun hd => hd.elim) ?_ id
  have herase := countP_erase_of_mem hf
  simp only [outstanding, return_frame, State.los_dataWasSent, List.countP_append,
    List.countP_singleton]
  omega

theorem freed_law (p : Platform) (s : State) (f : Transmission) (hs : Settled s)
    (hf : f ∈ s.calling) :
    let t := free_header s f
    LastIsSent p s (.freed f) t ∧ Settled t ∨ ¬ LastIsSent p s (.freed f) t ∧ ¬ Settled t := by
  intro t
  have herase := countP_erase_of_mem hf
  by_cases hlast : f.Last s
  · have hdown : t.capture_busy = 0 := by simp only [t, free_header, if_pos hlast]
    exact Or.inl ⟨⟨by simp, fun _ _ _ => hlast⟩, fun _ => hdown⟩
  · have hbusy : t.capture_busy = s.capture_busy := by
      simp only [t, free_header, if_neg hlast]
    by_cases hreq : f.requested = true
    · have hdisposes : Disposes p s (.freed f) := hreq
      refine disposes_law (by simp) hdisposes hlast ?_ hbusy
      rw [if_pos hreq] at herase
      simp only [t, outstanding, free_header]
      omega
    · refine Or.inl (keeps hs (by simp) hreq ?_ (by simp [hbusy]))
      rw [if_neg hreq] at herase
      simp only [t, outstanding, free_header]
      omega

/-- Starting, stopping and setting up streaming disposes of no still. -/
theorem manages_law {p : Platform} {s t : State} {e : Event} (hs : Settled s)
    (he : e.manages = true) (ht : SameFrames s t) : LastIsSent p s e t ∧ Settled t := by
  have hcommand : ∀ c, e ≠ .command c := by
    rintro c rfl
    cases he
  have hdisposes : ¬ Disposes p s e := by
    cases e with
    | send_output o => cases he
    | freed f => cases he
    | _ => exact id
  refine keeps hs hcommand hdisposes ?_ ht.busy
  simp only [outstanding, ht.due, ht.flying, ht.calling]

theorem step_law (p : Platform) (s : State) (e : Event) (t : State) (hs : Settled s)
    (h : step p s e = some t) :
    LastIsSent p s e t ∧ Settled t ∨ ¬ LastIsSent p s e t ∧ ¬ Settled t := by
  cases step_effect h with
  | command c => exact command_law p s c hs
  | output o t ho ht => exact output_law hs ho ht
  | sent f hf => exact Or.inl (sent_law p s f hs hf)
  | freed f hf => exact freed_law p s f hs hf
  | manages e t he ht => exact Or.inl (manages_law hs he ht)

/-- From boot the flag is down whenever no requested still is left exactly when the last
one is each time sent and called back with no other frame of its output waiting. -/
theorem settled_iff (p : Platform) (es : List Event) :
    AllSteps (step p) (fun _ _ t => Settled t) boot es ↔
      AllSteps (step p) (LastIsSent p) boot es := by
  apply allSteps_invariant_iff (step p) (step_law p)
  intro _
  rfl

def skippedStill : List Event := [.start, .command (capture 1), .send_output (output 1 2 true)]

/-- The still is skipped, and the flag stays up. -/
theorem skipped_still_leaves_busy :
    ¬ ∀ p es, AllSteps (step p) (fun _ _ t => Settled t) boot es := by
  intro hall
  have hend : (exec (step panorama) boot skippedStill).map
      (fun t => (outstanding t, t.capture_busy)) = some (0, 1) := rfl
  obtain ⟨t, hrun, hpair⟩ := Option.map_eq_some_iff.mp hend
  obtain ⟨hout, hbusy⟩ := Prod.mk.inj hpair
  have hsettled : Settled t :=
    exec_of_allSteps (step panorama) (fun _ => rfl) (hall panorama skippedStill) hrun
  have hdown := hsettled hout
  omega

end Fixed.CaptureFlag
