import Fixed.StreamServer

/-!
Where the header bytes of a connection come from. The buffer of the main
thread outlives the connection, and only a time-out of the first `recv` is
told apart from the other outcomes. Every worker ever created has its values
from the first three bytes of its own connection's stream exactly when every
connection the clients open either times out or delivers three bytes at once.
-/
namespace Fixed.HeaderFraming

open ByteFile Runs StreamServer

/-- The first `recv` times out or returns at least the three header bytes. -/
def Delivers (k : Conn) : Prop :=
  k.recvd = .error EAGAIN ∨ ∃ n, k.recvd = .bytes n ∧ 3 ≤ n

def streamValue (k : Conn) (i : ℕ) : Option ℤ := (k.stream[i]?).map fun b => (b.toNat : ℤ)

/-- The worker's connection delivered the three header bytes, and the worker
was created with their values. -/
structure Framed (w : Worker) : Prop where
  received : ∃ n, w.conn.recvd = .bytes n ∧ 3 ≤ n
  c : streamValue w.conn 0 = some (w.args .c)
  fps : streamValue w.conn 1 = some (w.args .fps)
  imagesize : streamValue w.conn 2 = some (w.args .imagesize)

structure Heard (buff : ℕ → UInt8) (k : Conn) : Prop where
  received : ∃ n, k.recvd = .bytes n ∧ 3 ≤ n
  bytes : ∀ i, i < 3 → k.stream[i]? = some (buff i)

structure Inv (s : State) : Prop where
  stored : Stored s
  framed : ∀ w ∈ s.workers, Framed w
  delivers : ∀ k, s.pc = .recv k → Delivers k
  heard : ∀ k, (∃ f, s.pc = .store f k) ∨ s.pc = .create k → Heard s.buff k

/-- A received header replaces whatever an earlier connection left behind. -/
theorem heard_splice (buff : ℕ → UInt8) {k : Conn} {n : ℕ} (hn : k.recvd = .bytes n) (h3 : 3 ≤ n) :
    Heard (splice buff 0 (k.stream.take n)) k where
  received := ⟨n, hn, h3⟩
  bytes i hi := by
    obtain ⟨-, hlen⟩ := k.recvd_le n hn
    have hin : i < k.stream.length := by omega
    have hget : (k.stream.take n)[i]? = some k.stream[i] := by
      rw [List.getElem?_take, if_pos (by omega), List.getElem?_eq_getElem hin]
    have hsp := splice_of_getElem? buff 0 _ hget
    rw [Nat.zero_add] at hsp
    rw [hsp, List.getElem?_eq_getElem hin]

/-- A worker created behind a received header is framed. -/
theorem framed_created {buff : ℕ → UInt8} {k : Conn} (h : Heard buff k) (vars : Field → ℤ) :
    Framed ⟨k, header k.connfd buff, .load .connfd, vars⟩ where
  received := h.received
  c := by rw [streamValue, h.bytes 0 (by omega)]; rfl
  fps := by rw [streamValue, h.bytes 1 (by omega)]; rfl
  imagesize := by rw [streamValue, h.bytes 2 (by omega)]; rfl

/-- A worker is framed by its connection and the values it was created with. -/
theorem framed_congr {w v : Worker} (h : Framed w) (hconn : v.conn = w.conn)
    (hargs : v.args = w.args) : Framed v := by
  obtain ⟨hreceived, hc, hfps, himagesize⟩ := h
  constructor
  · rwa [hconn]
  · rwa [hconn, hargs]
  · rwa [hconn, hargs]
  · rwa [hconn, hargs]

/-- What the main thread does with a connection that delivers its header. -/
theorem afterRecv_of_delivers {s : State} {k : Conn} (h : Delivers k) :
    (afterRecv s k).workers = s.workers ∧
      ((afterRecv s k).pc = .accept ∨
        (afterRecv s k).pc = .store .c k ∧ Heard (afterRecv s k).buff k) := by
  rcases h with herr | ⟨n, hn, h3⟩
  · have hclose : afterRecv s k =
        { s with opened := s.opened.erase k.connfd, pc := .accept } := by
      simp only [afterRecv, herr, if_true]
    rw [hclose]
    exact ⟨rfl, Or.inl rfl⟩
  · have hfill : afterRecv s k =
        { s with buff := splice s.buff 0 (k.stream.take n), pc := .store .c k } := by
      simp only [afterRecv, hn]
    rw [hfill]
    exact ⟨rfl, Or.inr ⟨rfl, heard_splice s.buff hn h3⟩⟩

theorem inv_step (s : State) (e : Event) (t : State) (hinv : Inv s) (h : step s e = some t)
    (hk : ∀ k, e = .accept (some k) → Delivers k) : Inv t := by
  have hstored := stored_step hinv.stored h
  cases step_cases h with
  | accept_error _ => exact hinv
  | accept k _ _ =>
    refine ⟨hstored, hinv.framed, ?_, ?_⟩
    · rintro k' ⟨rfl⟩
      exact hk k rfl
    · rintro k' (⟨f, hpc⟩ | hpc) <;> cases hpc
  | recv k hpc =>
    obtain ⟨hworkers, hnext⟩ := afterRecv_of_delivers (s := s) (hinv.delivers k hpc)
    refine ⟨hstored, by rw [hworkers]; exact hinv.framed, ?_, ?_⟩
    · intro k' hk'
      rcases hnext with hacc | ⟨hst, -⟩
      · rw [hacc] at hk'
        cases hk'
      · rw [hst] at hk'
        cases hk'
    · intro k' hk'
      rcases hnext with hacc | ⟨hst, hheard⟩
      · rw [hacc] at hk'
        rcases hk' with ⟨f, hf⟩ | hf <;> cases hf
      · rw [hst] at hk'
        rcases hk' with ⟨f, hf⟩ | hf
        · cases hf
          exact hheard
        · cases hf
  | store f k hpc =>
    have hheard := hinv.heard k (Or.inl ⟨f, hpc⟩)
    refine ⟨hstored, hinv.framed, ?_, ?_⟩
    · intro k' hk'
      cases f <;> cases hk'
    · intro k' hk'
      cases f <;> rcases hk' with ⟨g, hg⟩ | hg <;> cases hg <;> exact hheard
  | create k hpc =>
    refine ⟨hstored, ?_, ?_, ?_⟩
    · intro w hw
      rcases List.mem_append.mp hw with hw | hw
      · exact hinv.framed w hw
      · obtain rfl := List.mem_singleton.mp hw
        have hargs : s.myarg = header k.connfd s.buff := by
          simpa only [Stored, hpc] using hinv.stored
        rw [hargs]
        exact framed_created (hinv.heard k (Or.inr hpc)) _
    · intro k' hk'
      cases hk'
    · rintro k' (⟨f, hf⟩ | hf) <;> cases hf
  | create_error k _ =>
    refine ⟨hstored, hinv.framed, ?_, ?_⟩
    · intro k' hk'
      cases hk'
    · rintro k' (⟨f, hf⟩ | hf) <;> cases hf
  | load i w f hw _ =>
    refine ⟨hstored, forall_mem_set hinv.framed ?_, hinv.delivers, hinv.heard⟩
    exact framed_congr (hinv.framed w (List.mem_of_getElem? hw)) rfl rfl
  | close i w hw _ =>
    refine ⟨hstored, forall_mem_set hinv.framed ?_, hinv.delivers, hinv.heard⟩
    exact framed_congr (hinv.framed w (List.mem_of_getElem? hw)) rfl rfl

theorem inv_start (buff : ℕ → UInt8) (myarg : Arg) : Inv (start buff myarg) where
  stored := stored_start buff myarg
  framed w hw := absurd hw (by simp [start])
  delivers k hk := by cases hk
  heard := by rintro k (⟨f, hf⟩ | hf) <;> cases hf

/-- The invariant holds after every run whose connections all deliver. -/
theorem inv_run {buff : ℕ → UInt8} {myarg : Arg} {es : List Event} {s : State}
    (hes : ∀ k, .accept (some k) ∈ es → Delivers k)
    (hrun : exec step (start buff myarg) es = some s) : Inv s := by
  have hall : ∀ e ∈ es, ∀ k, e = .accept (some k) → Delivers k := by
    rintro e he k rfl
    exact hes k he
  exact exec_invariant_of_allSteps step inv_step (inv_start buff myarg)
    (allSteps_of_mem step hall _) hrun

/-- Every outcome but a time-out is taken for a received header. -/
theorem afterRecv_of_ne {k : Conn} (hk : k.recvd ≠ .error EAGAIN) (s : State) :
    ∃ buff, afterRecv s k = { s with buff := buff, pc := .store .c k } := by
  cases hrecv : k.recvd with
  | bytes n => exact ⟨splice s.buff 0 (k.stream.take n), by simp only [afterRecv, hrecv]⟩
  | error errno =>
    have hne : errno ≠ EAGAIN := by
      rintro rfl
      exact hk hrecv
    exact ⟨s.buff, by simp only [afterRecv, hrecv, if_neg hne]⟩

/-- So a connection whose first `recv` does not time out gets a worker. -/
theorem exec_accepted {k : Conn} (hk : k.recvd ≠ .error EAGAIN) (buff : ℕ → UInt8) (myarg : Arg) :
    ∃ s w, exec step (start buff myarg) (accepted k) = some s ∧ w ∈ s.workers ∧ w.conn = k := by
  have haccept : step (start buff myarg) (.accept (some k)) =
      some { start buff myarg with pc := .recv k, opened := [k.connfd] } :=
    step_accept rfl (by simp [start])
  obtain ⟨buff', hrecv⟩ := afterRecv_of_ne hk
    { start buff myarg with pc := .recv k, opened := [k.connfd] }
  have hmain : step { start buff myarg with pc := .recv k, opened := [k.connfd] } .main = some _ :=
    congrArg some hrecv
  refine ⟨_, ⟨k, header k.connfd buff', .load .connfd, fun _ => 0⟩,
    (exec_cons_eq_some step).mpr ⟨_, haccept, (exec_cons_eq_some step).mpr ⟨_, hmain, rfl⟩⟩,
    ?_, rfl⟩
  apply List.mem_singleton.mpr
  congr 1
  funext f
  cases f <;> rfl

/-- In all runs over the connections the clients may open, every worker is
framed, exactly when every such connection times out or delivers its header. -/
theorem workers_framed_iff (Opens : Conn → Prop) :
    (∀ buff myarg es s, (∀ k, .accept (some k) ∈ es → Opens k) →
      exec step (start buff myarg) es = some s → ∀ w ∈ s.workers, Framed w) ↔
    ∀ k, Opens k → Delivers k := by
  constructor
  · intro h k hk
    by_contra hnot
    have hne : k.recvd ≠ .error EAGAIN := fun he => hnot (Or.inl he)
    obtain ⟨s, w, hrun, hw, hconn⟩ := exec_accepted hne (fun _ => 0) fun _ => 0
    have honly : ∀ k', Event.accept (some k') ∈ accepted k → Opens k' := by
      intro k' hk'
      have he : k' = k := by simpa [accepted] using hk'
      rw [he]
      exact hk
    obtain ⟨n, hn, h3⟩ := (h _ _ _ s honly hrun w hw).received
    rw [hconn] at hn
    exact hnot (Or.inr ⟨n, hn, h3⟩)
  · intro h buff myarg es s hes hrun
    exact (inv_run (fun k hk => h k (hes k hk)) hrun).framed

section Sample

def silentConn : Conn where
  connfd := 5
  connfd_nonneg := by decide
  stream := []
  recvd := .bytes 0
  recvd_le n hn := by
    cases hn
    decide

/-- The worker of the silent client gets the header of the prompt one. -/
theorem silent_client_unframed : ∃ s w,
    exec step (start (fun _ => 0) fun _ => 0)
      (accepted (clientConn 4 1 2 3) ++ accepted silentConn) = some s ∧
    w ∈ s.workers ∧ w.conn = silentConn ∧
    (w.args .c, w.args .fps, w.args .imagesize) = (1, 2, 3) ∧ ¬ Framed w := by
  refine ⟨_, _, rfl, List.mem_cons_of_mem _ List.mem_cons_self, rfl, by decide, ?_⟩
  intro h
  obtain ⟨n, hn, h3⟩ := h.received
  cases hn
  omega

end Sample

end Fixed.HeaderFraming
