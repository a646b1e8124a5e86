import Mathlib.Algebra.Ring.Int.Defs
import Mathlib.Data.List.Count
import Mathlib.Logic.Function.Basic

/-!
The output side of the camera firmware, built to stream over MIPI: the command
callback, the event thread that sends output frames, the two halves of the
callback for a sent frame, and the calls that start and stop streaming and
register transmit clients. The order of all of them, the outcome of every call
into the platform and the number of still frames a capture leads to are decided
outside.
-/
namespace Fixed.CameraPipeline

structure Platform where
  FRAME_T_FORMAT_422I : ℕ
  FRAME_T_FORMAT_RAW_10_PACK : ℕ
  FRAME_T_FORMAT_BINARY : ℕ
  FRAME_T_FORMAT_MAX : ℕ
  MODE_STITCH_ALL : ℕ

inductive FrameType
  | preview
  | still
  | still_raw
  | metadata_prv
  | iq_debug_data
deriving DecidableEq, Repr

def INSTANCES_COUNT_MAX : ℕ := 3

def FRAMES_TO_SKIP : ℕ := 8

/-- A frame handed to the MIPI thread with its header. `frame` numbers the
delivery to the event thread, and `requested` is set for a still produced for
an accepted capture; the program has neither. -/
structure Transmission where
  frame : ℕ
  client : ℕ
  camera_id : ℕ
  frame_type : FrameType
  requested : Bool
deriving DecidableEq, Repr

abbrev ClientTable := ℕ → FrameType → ℕ → Option ℕ

/-- `flying` has the frames the MIPI thread is to send and `calling` those whose
callback has returned the frame but not yet looked at the counter. The program
does not have the last three fields: the number of frames delivered to the event
thread, those given back with `los_dataWasSent`, and the stills still to be
delivered for accepted captures. -/
structure State where
  ref_cnt : ℕ
  capture_busy : ℕ
  lrt_stitch_mode : ℕ
  skip_frames : ℕ
  client : ClientTable
  wait_to_send_in_mipi_tx : ℕ → ℤ
  flying : List Transmission
  calling : List Transmission
  crashed : Bool
  delivered : ℕ
  returned : List ℕ
  due : ℕ

def boot : State where
  ref_cnt := 0
  capture_busy := 0
  lrt_stitch_mode := 0
  skip_frames := FRAMES_TO_SKIP
  client _ _ _ := none
  wait_to_send_in_mipi_tx _ := 0
  flying := []
  calling := []
  crashed := false
  delivered := 0
  returned := []
  due := 0

inductive CommandId
  | cam_start
  | cam_capture
  | single_cam_capture
  | cam_lp_mode
  | usecase_still_full_size
  | usecase_vdo_binning_size
  | other
deriving DecidableEq, Repr

/-- A command, what the platform answers while it is handled, and the number of
stills the pipeline will produce if it is an accepted capture. -/
structure Command where
  id : CommandId
  camera_control_is_active : Fin 3 → Bool
  low_power_video : Bool
  stills : ℕ

def Command.passes (c : Command) : Bool :=
  !((∃ i, c.camera_control_is_active i = true) && c.id = .cam_start) &&
    ((∀ i, c.camera_control_is_active i = true) || c.id = .cam_start || c.id = .cam_lp_mode ||
      c.id = .usecase_still_full_size || c.id = .usecase_vdo_binning_size)

def Command.captures (c : Command) : Bool :=
  c.passes && (c.id = .cam_capture || c.id = .single_cam_capture) && !c.low_power_video

def app_guzzi_command_callback (p : Platform) (s : State) (c : Command) : State :=
  if c.captures && s.capture_busy = 0 then
    { s with
      capture_busy := 1
      lrt_stitch_mode :=
        if c.id = .cam_capture then p.MODE_STITCH_ALL
        else if s.lrt_stitch_mode + 1 > 2 then 0 else s.lrt_stitch_mode + 1
      due := s.due + c.stills }
  else s

/-- A frame in `IC_EVENT_TYPE_SEND_OUTPUT_DATA`, with the outcome of the calls
its transmission makes. -/
structure Output where
  outId : ℕ
  frmFmt : ℕ
  requested : Bool
  pool_alloc : Bool
  mipi_tx_thread_send : ℤ

def Output.frmType (o : Output) : FrameType := if o.outId = 0 then .preview else .still

def Output.inBounds (p : Platform) (o : Output) : Prop :=
  o.outId < INSTANCES_COUNT_MAX ∧ o.frmFmt < p.FRAME_T_FORMAT_MAX

instance (p : Platform) (o : Output) : Decidable (o.inBounds p) :=
  inferInstanceAs (Decidable (_ ∧ _))

def State.take (s : State) (o : Output) : State :=
  { s with
    delivered := s.delivered + 1
    due := if o.requested then s.due - 1 else s.due }

def State.los_dataWasSent (s : State) (frame : ℕ) : State :=
  { s with returned := s.returned ++ [frame] }

def transmit (s : State) (o : Output) (client : ℕ) : State :=
  if o.pool_alloc ∧ o.mipi_tx_thread_send = 0 then
    { s.take o with
      wait_to_send_in_mipi_tx := Function.update s.wait_to_send_in_mipi_tx o.outId
        (s.wait_to_send_in_mipi_tx o.outId + 1)
      flying := s.flying ++ [⟨s.delivered, client, o.outId, o.frmType, o.requested⟩] }
  else { s with crashed := true }

/-- The handling of `IC_EVENT_TYPE_SEND_OUTPUT_DATA`. A frame without a client is
left by `break`. -/
def eventLoop_send_output (p : Platform) (s : State) (o : Output) : State :=
  if o.inBounds p then
    if s.skip_frames = 0 then
      match s.client o.outId o.frmType o.frmFmt with
      | none => s.take o
      | some client => transmit s o client
    else { (s.take o).los_dataWasSent s.delivered with skip_frames := s.skip_frames - 1 }
  else { s with crashed := true }

def return_frame (s : State) (t : Transmission) : State :=
  { s.los_dataWasSent t.frame with
    wait_to_send_in_mipi_tx := Function.update s.wait_to_send_in_mipi_tx t.camera_id
      (s.wait_to_send_in_mipi_tx t.camera_id - 1)
    flying := s.flying.erase t
    calling := s.calling ++ [t] }

def Transmission.Last (s : State) (t : Transmission) : Prop :=
  t.frame_type = .still ∧ s.wait_to_send_in_mipi_tx t.camera_id = 0

instance (s : State) (t : Transmission) : Decidable (t.Last s) :=
  inferInstanceAs (Decidable (_ ∧ _))

def free_header (s : State) (t : Transmission) : State :=
  { s with
    capture_busy := if t.Last s then 0 else s.capture_busy
    calling := s.calling.erase t }

def los_start (s : State) : State :=
  if s.ref_cnt = 0 then
    { s with ref_cnt := 1, capture_busy := 0, client := fun _ _ _ => none }
  else { s with ref_cnt := s.ref_cnt + 1 }

/-- `los_stop`, with the event thread's handling of `IC_EVENT_TYPE_TORN_DOWN`. -/
def los_stop (s : State) : State :=
  if s.ref_cnt = 0 then { s with crashed := true }
  else if s.ref_cnt = 1 then
    { s with ref_cnt := 0, skip_frames := FRAMES_TO_SKIP, client := fun _ _ _ => none }
  else { s with ref_cnt := s.ref_cnt - 1 }

structure Clients where
  preview : ℕ
  capture : ℕ
  raw : ℕ
  iq_debug : ℕ

def init_tx_clients_for_source (p : Platform) (s : State) (srcIdx : ℕ) (c : Clients) : State :=
  { s with client := fun inst frmType fmt =>
      if inst ≠ srcIdx then s.client inst frmType fmt
      else if frmType = .preview ∧ fmt = p.FRAME_T_FORMAT_422I then some c.preview
      else if frmType = .still ∧ fmt = p.FRAME_T_FORMAT_422I then some c.capture
      else if frmType = .still_raw ∧ fmt = p.FRAME_T_FORMAT_RAW_10_PACK then some c.raw
      else if frmType = .iq_debug_data ∧ fmt = p.FRAME_T_FORMAT_BINARY then some c.iq_debug
      else s.client inst frmType fmt }

def los_startSource (s : State) (srcIdx : ℕ) : State :=
  { s with wait_to_send_in_mipi_tx := Function.update s.wait_to_send_in_mipi_tx srcIdx 0 }

inductive Event
  | command (c : Command)
  | send_output (o : Output)
  | sent (t : Transmission)
  | freed (t : Transmission)
  | start
  | stop
  | configureSource (srcIdx : ℕ) (c : Clients)
  | startSource (srcIdx : ℕ)

/-- A still is requested while one is due, and on an output other than zero. -/
def Output.Possible (s : State) (o : Output) : Prop :=
  0 < s.ref_cnt ∧ (o.requested = true → o.outId ≠ 0 ∧ 0 < s.due)

instance (s : State) (o : Output) : Decidable (o.Possible s) :=
  inferInstanceAs (Decidable (_ ∧ _))

/-- One step of the firmware. After a failed assertion there is none. -/
def step (p : Platform) (s : State) (e : Event) : Option State :=
  if s.crashed then none
  else
    match e with
    | .command c => some (app_guzzi_command_callback p s c)
    | .send_output o => if o.Possible s then some (eventLoop_send_output p s o) else none
    | .sent t => if t ∈ s.flying then some (return_frame s t) else none
    | .freed t => if t ∈ s.calling then some (free_header s t) else none
    | .start => some (los_start s)
    | .stop => some (los_stop s)
    | .configureSource srcIdx c => some (init_tx_clients_for_source p s srcIdx c)
    | .startSource srcIdx => some (los_startSource s srcIdx)

/-- The event thread takes a frame, and skips it, drops it or transmits it; a frame
outside the bounds stops the program. -/
inductive Handled (p : Platform) (s : State) (o : Output) : State → Prop
  | skipped (hin : o.inBounds p) (hskip : s.skip_frames ≠ 0) : Handled p s o
      { (s.take o).los_dataWasSent s.delivered with skip_frames := s.skip_frames - 1 }
  | dropped (hin : o.inBounds p) (hskip : s.skip_frames = 0)
      (hclient : s.client o.outId o.frmType o.frmFmt = none) : Handled p s o (s.take o)
  | transmitted (hskip : s.skip_frames = 0) (client : ℕ)
      (hclient : s.client o.outId o.frmType o.frmFmt = some client) :
      Handled p s o (transmit s o client)
  | refused (hout : ¬ o.inBounds p) : Handled p s o { s with crashed := true }

theorem handled (p : Platform) (s : State) (o : Output) :
    Handled p s o (eventLoop_send_output p s o) := by
  unfold eventLoop_send_output
  split
  · rename_i hin
    split
    · rename_i hskip
      split
      · rename_i hclient
        exact .dropped hin hskip hclient
      · rename_i client hclient
        exact .transmitted hskip client hclient
    · rename_i hskip
      exact .skipped hin hskip
  · rename_i hout
    exact .refused hout

def Event.manages : Event → Bool
  | .start | .stop | .configureSource _ _ | .startSource _ => true
  | _ => false

structure SameFrames (s t : State) : Prop where
  flying : t.flying = s.flying
  calling : t.calling = s.calling
  delivered : t.delivered = s.delivered
  returned : t.returned = s.returned
  due : t.due = s.due
  busy : t.capture_busy ≠ 0 → s.capture_busy ≠ 0

theorem sameFrames_los_start (s : State) : SameFrames s (los_start s) := by
  unfold los_start
  split
  · exact ⟨rfl, rfl, rfl, rfl, rfl, fun h => absurd rfl h⟩
  · exact ⟨rfl, rfl, rfl, rfl, rfl, id⟩

theorem sameFrames_los_stop (s : State) : SameFrames s (los_stop s) := by
  unfold los_stop
  split
  · exact ⟨rfl, rfl, rfl, rfl, rfl, id⟩
  · split
    · exact ⟨rfl, rfl, rfl, rfl, rfl, id⟩
    · exact ⟨rfl, rfl, rfl, rfl, rfl, id⟩

inductive Effect (p : Platform) (s : State) : Event → State → Prop
  | command (c : Command) : Effect p s (.command c) (app_guzzi_command_callback p s c)
  | output (o : Output) (t : State) (ho : o.Possible s) (ht : Handled p s o t) :
      Effect p s (.send_output o) t
  | sent (f : Transmission) (hf : f ∈ s.flying) : Effect p s (.sent f) (return_frame s f)
  | freed (f : Transmission) (hf : f ∈ s.calling) : Effect p s (.freed f) (free_header s f)
  | manages (e : Event) (t : State) (he : e.manages = true) (ht : SameFrames s t) : Effect p s e t

theorem step_effect {p : Platform} {s t : State} {e : Event} (h : step p s e = some t) :
    Effect p s e t := by
  unfold step at h
  split at h
  · cases h
  · cases e with
    | command c =>
      obtain rfl := Option.some.inj h
      exact .command c
    | send_output o =>
      obtain ⟨ho, ht⟩ := Option.ite_none_right_eq_some.mp h
      exact .output o t ho (Option.some.inj ht ▸ handled p s o)
    | sent f =>
      obtain ⟨hf, ht⟩ := Option.ite_none_right_eq_some.mp h
      exact Option.some.inj ht ▸ .sent f hf
    | freed f =>
      obtain ⟨hf, ht⟩ := Option.ite_none_right_eq_some.mp h
      exact Option.some.inj ht ▸ .freed f hf
    | start => exact .manages _ t rfl (Option.some.inj h ▸ sameFrames_los_start s)
    | stop => exact .manages _ t rfl (Option.some.inj h ▸ sameFrames_los_stop s)
    | configureSource srcIdx c =>
      obtain rfl := Option.some.inj h
      exact .manages _ _ rfl ⟨rfl, rfl, rfl, rfl, rfl, id⟩
    | startSource srcIdx =>
      obtain rfl := Option.some.inj h
      exact .manages _ _ rfl ⟨rfl, rfl, rfl, rfl, rfl, id⟩

def panorama : Platform where
  FRAME_T_FORMAT_422I := 2
  FRAME_T_FORMAT_RAW_10_PACK := 3
  FRAME_T_FORMAT_BINARY := 4
  FRAME_T_FORMAT_MAX := 5
  MODE_STITCH_ALL := 0

def capture (stills : ℕ) : Command := ⟨.cam_capture, fun _ => true, false, stills⟩

def output (outId frmFmt : ℕ) (requested : Bool) : Output := ⟨outId, frmFmt, requested, true, 0⟩

end Fixed.CameraPipeline
