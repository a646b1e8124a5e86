import Fixed.CameraPipeline
import Fixed.Runs
import Mathlib.Data.List.Nodup
import Mathlib.Data.List.Range

/-!
What becomes of the frames delivered to the event thread. A skipped frame is
given back at once and a transmitted one by the callback of its transmission,
but a frame without a transmit client is left behind. In a run every delivered
frame is given back once, or still with the MIPI thread, exactly when every frame
that comes after the skipped ones has a client registered for it.
-/
namespace Fixed.FrameReturn

open CameraPipeline Runs

/-- Every delivered frame was given back once or is with the MIPI thread. -/
def Conserved (s : State) : Prop :=
  (s.returned ++ s.flying.map (·.frame)).Perm (List.range s.delivered)

def HasClient (p : Platform) (s : State) (e : Event) (_ : State) : Prop :=
  ∀ o, e = .send_output o → o.inBounds p → s.skip_frames = 0 →
    s.client o.outId o.frmType o.frmFmt ≠ none

/-- No frame is given back twice, and none that is still to be sent. -/
theorem Conserved.once {s : State} (h : Conserved s) :
    s.returned.Nodup ∧ ∀ t ∈ s.flying, t.frame ∉ s.returned := by
  have hnodup := h.nodup_iff.mpr (List.nodup_range (n := s.delivered))
  obtain ⟨hreturned, -, hdisjoint⟩ := List.nodup_append.mp hnodup
  refine ⟨hreturned, fun t ht hmem => ?_⟩
  exact hdisjoint _ hmem _ (List.mem_map_of_mem ht) rfl

/-- With nothing left to be sent, exactly the delivered frames were given back. -/
theorem Conserved.all {s : State} (h : Conserved s) (hflying : s.flying = []) (n : ℕ) :
    n ∈ s.returned ↔ n < s.delivered := by
  rw [Conserved, hflying, List.map_nil, List.append_nil] at h
  rw [h.mem_iff, List.mem_range]

section Law

variable {p : Platform} {s t : State}

theorem hasClient_of_ne {e : Event} (he : ∀ o, e ≠ .send_output o) : HasClient p s e t :=
  fun o ho => absurd ho (he o)

theorem Conserved.of_sameFrames (hs : Conserved s) (h : SameFrames s t) : Conserved t := by
  rwa [Conserved, h.returned, h.flying, h.delivered]

theorem conserved_skipped (hs : Conserved s) (o : Output) :
    Conserved { (s.take o).los_dataWasSent s.delivered with skip_frames := s.skip_frames - 1 } := by
  have hmove : (s.returned ++ [s.delivered] ++ s.flying.map (·.frame)).Perm
      (s.returned ++ s.flying.map (·.frame) ++ [s.delivered]) := by
    rw [List.append_assoc, List.append_assoc]
    exact List.perm_append_comm.append_left s.returned
  have hrange := hmove.trans (hs.append_right [s.delivered])
  rwa [← List.range_succ] at hrange

theorem conserved_transmit (hs : Conserved s) (o : Output) (client : ℕ) :
    Conserved (transmit s o client) := by
  unfold transmit
  split
  · have hrange := hs.append_right [s.delivered]
    rw [← List.range_succ, List.append_assoc] at hrange
    simpa only [Conserved, State.take, List.map_append, List.map_cons, List.map_nil] using hrange
  · exact hs

/-- A frame without a client is neither given back nor sent. -/
theorem not_conserved_take (hs : Conserved s) (o : Output) : ¬ Conserved (s.take o) := by
  intro ht
  have hlen := hs.length_eq
  have hlen' := ht.length_eq
  simp only [State.take, List.length_append, List.length_map, List.length_range] at hlen hlen'
  omega

theorem conserved_return_frame {f : Transmission} (hs : Conserved s) (hf : f ∈ s.flying) :
    Conserved (return_frame s f) := by
  have herase : (s.flying.map (·.frame)).Perm (f.frame :: (s.flying.erase f).map (·.frame)) :=
    (List.perm_cons_erase hf).map _
  have hmove := (herase.append_left s.returned).symm.trans hs
  rw [Conserved, return_frame, State.los_dataWasSent, List.append_assoc]
  exact hmove

end Law

theorem output_law {p : Platform} {s t : State} {o : Output} (hs : Conserved s)
    (ht : Handled p s o t) :
    HasClient p s (.send_output o) t ∧ Conserved t ∨
      ¬ HasClient p s (.send_output o) t ∧ ¬ Conserved t := by
  cases ht with
  | skipped hin hskip =>
    exact Or.inl ⟨fun _ _ _ h0 => absurd h0 hskip, conserved_skipped hs o⟩
  | dropped hin hskip hclient =>
    exact Or.inr ⟨fun hg => hg o rfl hin hskip hclient, not_conserved_take hs o⟩
  | transmitted hskip client hclient =>
    refine Or.inl ⟨fun o' ho' _ _ => ?_, conserved_transmit hs o client⟩
    obtain rfl := Event.send_output.inj ho'
    simp [hclient]
  | refused hout =>
    refine Or.inl ⟨fun o' ho' hin' => ?_, hs⟩
    obtain rfl := Event.send_output.inj ho'
    exact absurd hin' hout

/-- A command moves no frame. -/
theorem conserved_command {s : State} (hs : Conserved s) (p : Platform) (c : Command) :
    Conserved (app_guzzi_command_callback p s c) := by
  unfold app_guzzi_command_callback
  split
  · exact hs
  · exact hs

theorem step_law (p : Platform) (s : State) (e : Event) (t : State) (hs : Conserved s)
    (h : step p s e = some t) :
    HasClient p s e t ∧ Conserved t ∨ ¬ HasClient p s e t ∧ ¬ Conserved t := by
  cases step_effect h with
  | command c => exact Or.inl ⟨hasClient_of_ne (by simp), conserved_command hs p c⟩
  | output o t ho ht => exact output_law hs ht
  | sent f hf => exact Or.inl ⟨hasClient_of_ne (by simp), conserved_return_frame hs hf⟩
  | freed f hf => exact Or.inl ⟨hasClient_of_ne (by simp), hs⟩
  | manages e t he ht =>
    have houtput : ∀ o, e ≠ .send_output o := by
      rintro o rfl
      cases he
    exact Or.inl ⟨hasClient_of_ne houtput, hs.of_sameFrames ht⟩

theorem conserved_boot : Conserved boot := List.Perm.refl _

/-- From boot every delivered frame is given back once or still to be sent exactly when
every frame that is not skipped has a client. -/
theorem conserved_iff (p : Platform) (es : List Event) :
    AllSteps (step p) (fun _ _ t => Conserved t) boot es ↔
      AllSteps (step p) (HasClient p) boot es :=
  allSteps_invariant_iff (step p) (step_law p) conserved_boot

def unregistered : List Event :=
  [.start, .configureSource 0 ⟨1, 2, 3, 4⟩] ++
    List.replicate 9 (.send_output (output 0 1 false))

/-- The ninth frame is lost. -/
theorem unregistered_frame_lost :
    ¬ ∀ p es, AllSteps (step p) (fun _ _ t => Conserved t) boot es := by
  intro hall
  have hend : (exec (step panorama) boot unregistered).map
      (fun t => ((t.returned ++ t.flying.map (·.frame)).length, t.delivered)) = some (8, 9) := rfl
  obtain ⟨t, hrun, hpair⟩ := Option.map_eq_some_iff.mp hend
  obtain ⟨hgiven, hdelivered⟩ := Prod.mk.inj hpair
  have hconserved : Conserved t :=
    exec_of_allSteps (step panorama) conserved_boot (hall panorama unregistered) hrun
  have hlen := hconserved.length_eq
  rw [List.length_range] at hlen
  omega

end Fixed.FrameReturn
