import Fixed.StreamClient
import Fixed.WorkerIsolation
import Fixed.HeaderFraming

/-!
The handshake between `testPCClient` and `testAndroidServer`. A single client
whose header arrives in one piece hands its worker the three header bytes, so
the worker's values are the client's exactly when both numbers were below 256
before the client reduced them to bytes.
-/
namespace Fixed.StreamHandshake

open Runs StreamServer StreamClient WorkerIsolation HeaderFraming

def streamArgs (k : Conn) : Arg := header k.connfd fun i => (k.stream[i]?).getD 0

/-- Only connection `k` is in progress, every worker was created with its
values, and `myarg` holds them from the first worker on. -/
structure Single (k : Conn) (s : State) : Prop where
  framing : HeaderFraming.Inv s
  only : ∀ k', s.pc.conn = some k' → k' = k
  myarg : s.workers ≠ [] → s.myarg = streamArgs k
  args : ∀ w ∈ s.workers, w.args = streamArgs k

theorem header_of_heard {buff : ℕ → UInt8} {k : Conn} (h : Heard buff k) :
    header k.connfd buff = streamArgs k := by
  funext f
  cases f <;> simp [streamArgs, header, h.bytes]

theorem single_step (k : Conn) (hk : Delivers k) (s : State) (e : Event) (t : State)
    (hs : Single k s) (h : step s e = some t) (he : ∀ k', e = .accept (some k') → k' = k) :
    Single k t := by
  have hframing : HeaderFraming.Inv t := by
    apply HeaderFraming.inv_step s e t hs.framing h
    intro k' hk'
    rw [he k' hk']
    exact hk
  cases step_cases h with
  | accept_error _ => exact hs
  | accept k' _ _ =>
    refine ⟨hframing, ?_, hs.myarg, hs.args⟩
    rintro k'' ⟨rfl⟩
    exact he k' rfl
  | recv k' hpc =>
    have hk' : k' = k := hs.only k' (by rw [hpc]; rfl)
    obtain ⟨hworkers, hnext⟩ := afterRecv_of_delivers (s := s) (hs.framing.delivers k' hpc)
    refine ⟨hframing, ?_, by rw [hworkers, afterRecv_myarg]; exact hs.myarg,
      by rw [hworkers]; exact hs.args⟩
    intro k'' hk''
    rcases hnext with hacc | ⟨hst, -⟩
    · rw [hacc] at hk''
      cases hk''
    · rw [hst] at hk''
      exact (Option.some.inj hk'').symm.trans hk'
  | store f k' hpc =>
    obtain rfl : k' = k := hs.only k' (by rw [hpc]; rfl)
    have hvalue := header_of_heard (hs.framing.heard k' (Or.inl ⟨f, hpc⟩))
    refine ⟨hframing, ?_, ?_, hs.args⟩
    · intro k'' hk''
      cases f <;> exact (Option.some.inj hk'').symm
    · intro hne
      change Function.update s.myarg f (header k'.connfd s.buff f) = streamArgs k'
      rw [hs.myarg hne, hvalue, Function.update_eq_self]
  | create k' hpc =>
    obtain rfl : k' = k := hs.only k' (by rw [hpc]; rfl)
    have hargs : s.myarg = header k'.connfd s.buff := by
      simpa only [Stored, hpc] using hs.framing.stored
    have hvalues := hargs.trans (header_of_heard (hs.framing.heard k' (Or.inr hpc)))
    refine ⟨hframing, fun k'' hk'' => (by cases hk''), fun _ => hvalues, ?_⟩
    intro w hw
    rcases List.mem_append.mp hw with hw | hw
    · exact hs.args w hw
    · rw [List.mem_singleton.mp hw]
      exact hvalues
  | create_error k' _ => exact ⟨hframing, fun k'' hk'' => (by cases hk''), hs.myarg, hs.args⟩
  | load i w f hw _ =>
    have hmem := List.mem_of_getElem? hw
    exact ⟨hframing, hs.only, fun _ => hs.myarg (List.ne_nil_of_mem hmem),
      forall_mem_set hs.args (hs.args w hmem)⟩
  | close i w hw _ =>
    have hmem := List.mem_of_getElem? hw
    exact ⟨hframing, hs.only, fun _ => hs.myarg (List.ne_nil_of_mem hmem),
      forall_mem_set hs.args (hs.args w hmem)⟩

theorem single_start (k : Conn) (buff : ℕ → UInt8) (myarg : Arg) :
    Single k (start buff myarg) where
  framing := HeaderFraming.inv_start buff myarg
  only k' hk' := by cases hk'
  myarg hne := absurd rfl hne
  args w hw := absurd hw (by simp [start])

/-- Stores for the one connection repeat the values they find. -/
theorem keepsPending_of_single {k : Conn} {s : State} (hs : Single k s) (e : Event) (t : State) :
    KeepsPending s e t := by
  intro f k' _ hpc i w hw _
  obtain rfl : k' = k := hs.only k' (by rw [hpc]; rfl)
  rw [hs.myarg (List.ne_nil_of_mem (List.mem_of_getElem? hw)),
    header_of_heard (hs.framing.heard k' (Or.inl ⟨f, hpc⟩))]

/-- In a run with one client, a serving worker has the values of the header in
that client's stream. -/
theorem vars_of_serving {k : Conn} (hk : Delivers k) {buff : ℕ → UInt8} {myarg : Arg}
    {es : List Event} {s : State} (hes : ∀ k', .accept (some k') ∈ es → k' = k)
    (hrun : exec step (start buff myarg) es = some s) {w : Worker} (hw : w ∈ s.workers)
    (hpc : w.pc = .serving) (f : Field) : w.vars f = loadedValue (streamArgs k) f := by
  have hall : ∀ e ∈ es, ∀ k', e = .accept (some k') → k' = k := by
    rintro e he k' rfl
    exact hes k' he
  have honly := allSteps_of_mem step hall (start buff myarg)
  have hsingle := exec_invariant_of_allSteps step (single_step k hk)
    (single_start k buff myarg) honly hrun
  have hkeep : AllSteps step KeepsPending (start buff myarg) es :=
    allSteps_of_invariant step (single_step k hk)
      (fun s e t hs _ _ => keepsPending_of_single hs e t) (single_start k buff myarg) honly
  have hinv := exec_invariant_of_allSteps step WorkerIsolation.inv_step
    (WorkerIsolation.inv_start buff myarg) hkeep hrun
  obtain ⟨i, hi⟩ := List.getElem?_of_mem hw
  rw [← hsingle.args w hw]
  apply (hinv.consistent i w hi).loaded
  rw [hpc]
  exact id

structure ClientRun (kb fps : ℤ) (c : UInt8) (k : Conn) (es : List Event) : Prop where
  stream : ∃ heap rest, k.stream = firstSend heap kb fps c ++ rest
  one_recv : ∃ n, k.recvd = .bytes n ∧ 3 ≤ n
  single : ∀ k', .accept (some k') ∈ es → k' = k

def Decodes (kb fps : ℤ) (c : UInt8) : Prop :=
  ∀ k buff myarg es s, ClientRun kb fps c k es → exec step (start buff myarg) es = some s →
    ∀ w ∈ s.workers, w.pc = .serving →
      w.vars .fps = fps ∧ w.vars .c = c.toNat ∧ w.vars .imagesize = imagesize kb

/-- What a worker works with, whatever the client's numbers are. -/
theorem vars_of_clientRun {kb fps : ℤ} {c : UInt8} {k : Conn} {es : List Event} {s : State}
    {buff : ℕ → UInt8} {myarg : Arg} (h : ClientRun kb fps c k es)
    (hrun : exec step (start buff myarg) es = some s) {w : Worker} (hw : w ∈ s.workers)
    (hpc : w.pc = .serving) :
    w.vars .fps = fps % 256 ∧ w.vars .c = c.toNat ∧ w.vars .imagesize = kb % 256 * 1024 := by
  obtain ⟨heap, rest, hstream⟩ := h.stream
  obtain ⟨hc, hfps, hkb⟩ := firstSend_header heap kb fps c rest
  have hvars := vars_of_serving (Or.inr h.one_recv) h.single hrun hw hpc
  rw [← hstream] at hc hfps hkb
  refine ⟨?_, ?_, ?_⟩
  · rw [hvars]
    simp only [loadedValue, streamArgs, header, hfps, Option.getD_some, char_mod]
  · rw [hvars]
    simp only [loadedValue, streamArgs, header, hc, Option.getD_some]
  · rw [hvars]
    simp only [loadedValue, streamArgs, header, hkb, Option.getD_some, char_mod]

def clientStream (kb fps : ℤ) (c : UInt8) : Conn where
  connfd := 4
  connfd_nonneg := by decide
  stream := firstSend (fun _ => 0) kb fps c
  recvd := .bytes 3
  recvd_le n hn := by
    cases hn
    rw [firstSend, ByteFile.length_block]
    decide

def served (kb fps : ℤ) (c : UInt8) : List Event :=
  accepted (clientStream kb fps c) ++ [.load 0, .load 0, .load 0, .load 0]

theorem clientRun_served (kb fps : ℤ) (c : UInt8) :
    ClientRun kb fps c (clientStream kb fps c) (served kb fps c) where
  stream := ⟨fun _ => 0, [], by simp [clientStream]⟩
  one_recv := ⟨3, rfl, le_rfl⟩
  single k' hk' := by simpa [served, accepted] using hk'

theorem exec_served (kb fps : ℤ) (c : UInt8) : ∃ s w,
    exec step (start (fun _ => 0) fun _ => 0) (served kb fps c) = some s ∧ w ∈ s.workers ∧
    w.pc = .serving :=
  ⟨_, _, rfl, List.mem_singleton.mpr rfl, rfl⟩

/-- The handshake decodes what an accepted client encodes exactly when the size
in kilobytes and the frame rate each fit a byte. -/
theorem handshake_decodes_iff (kb fps : ℤ) (c : UInt8) (h : Accepts kb fps) :
    Decodes kb fps c ↔ kb < 256 ∧ fps < 256 := by
  have hkb := h.imagesize_nonneg
  have hfps := h.fps_nonneg
  unfold imagesize at hkb
  constructor
  · intro hdec
    obtain ⟨s, w, hrun, hw, hpc⟩ := exec_served kb fps c
    obtain ⟨hf, -, hk⟩ := hdec _ _ _ _ s (clientRun_served kb fps c) hrun w hw hpc
    obtain ⟨hf', -, hk'⟩ := vars_of_clientRun (clientRun_served kb fps c) hrun hw hpc
    rw [hf'] at hf
    rw [hk'] at hk
    unfold imagesize at hk
    constructor <;> omega
  · rintro ⟨hkb', hfps'⟩ k buff myarg es s hclient hrun w hw hpc
    obtain ⟨hf, hc, hk⟩ := vars_of_clientRun hclient hrun hw hpc
    refine ⟨?_, hc, ?_⟩
    · rw [hf]
      omega
    · rw [hk]
      unfold imagesize
      omega

section Sample

theorem handshake_decodes_iff_100 : Decodes 100 30 7 ↔ (100 : ℤ) < 256 ∧ (30 : ℤ) < 256 :=
  handshake_decodes_iff 100 30 7 ⟨by decide, by decide, by decide⟩

/-- A client of 256 KB at 30 frames is served by a worker with a size of 0. -/
theorem handshake_loses_256 :
    Accepts 256 30 ∧ (∃ s w,
      exec step (start (fun _ => 0) fun _ => 0) (served 256 30 7) = some s ∧ w ∈ s.workers ∧
      w.pc = .serving ∧ w.vars .imagesize = 0) ∧
    ¬ Decodes 256 30 7 := by
  obtain ⟨s, w, hrun, hw, hpc⟩ := exec_served 256 30 7
  obtain ⟨-, -, hk⟩ := vars_of_clientRun (clientRun_served 256 30 7) hrun hw hpc
  refine ⟨⟨by decide, by decide, by decide⟩, ⟨s, w, hrun, hw, hpc, hk⟩, ?_⟩
  intro hdec
  obtain ⟨-, -, hk'⟩ := hdec _ _ _ _ s (clientRun_served 256 30 7) hrun w hw hpc
  rw [hk] at hk'
  exact absurd hk' (by decide)

end Sample

end Fixed.StreamHandshake
