import Fixed.StreamServer

/-!
Isolation of the worker threads. All threads are given the address of one
`myarg`, which main stores into again for the next connection while earlier
threads may still load from it. In every run in which no store changes a
field that a created thread has yet to load, each thread works with the
values of its own connection, and no two threads serve the same socket. A
run in which the second connection is quicker than the first thread breaks
both.
-/
namespace Fixed.WorkerIsolation

open Runs StreamServer

def loadRank : Field → ℕ
  | .connfd => 0
  | .fps => 1
  | .c => 2
  | .imagesize => 3

def Pending : WorkerPc → Field → Prop
  | .load g, f => loadRank g ≤ loadRank f
  | .serving, _ => False
  | .closed, _ => False

/-- What the worker has loaded are the values of its connection, and so is
what it has yet to load. -/
structure Consistent (myarg : Arg) (w : Worker) : Prop where
  socket : w.args .connfd = w.conn.connfd
  loaded : ∀ f, ¬ Pending w.pc f → w.vars f = loadedValue w.args f
  pending : ∀ f, Pending w.pc f → myarg f = w.args f

structure Sockets (s : State) : Prop where
  opened : ∀ (i : ℕ) w, s.workers[i]? = some w → w.pc ≠ .closed → w.conn.connfd ∈ s.opened
  distinct : ∀ (i j : ℕ) w v, s.workers[i]? = some w → s.workers[j]? = some v → w.pc ≠ .closed →
    v.pc ≠ .closed → w.conn.connfd = v.conn.connfd → i = j
  current : ∀ k, s.pc.conn = some k → k.connfd ∈ s.opened ∧
    ∀ (i : ℕ) w, s.workers[i]? = some w → w.pc ≠ .closed → w.conn.connfd ≠ k.connfd

structure Inv (s : State) : Prop where
  stored : Stored s
  consistent : ∀ (i : ℕ) w, s.workers[i]? = some w → Consistent s.myarg w
  sockets : Sockets s

/-- A store changes no field that a created worker has yet to load. -/
def KeepsPending (s : State) (e : Event) (_ : State) : Prop :=
  ∀ f k, e = .main → s.pc = .store f k →
    ∀ (i : ℕ) w, s.workers[i]? = some w → Pending w.pc f → s.myarg f = header k.connfd s.buff f

structure Isolated (s : State) : Prop where
  own_values : ∀ (i : ℕ) w, s.workers[i]? = some w → ∀ f, ¬ Pending w.pc f →
    w.vars f = loadedValue w.args f
  own_socket : ∀ (i : ℕ) w, s.workers[i]? = some w → w.args .connfd = w.conn.connfd
  distinct_sockets : ∀ (i j : ℕ) w v, s.workers[i]? = some w → s.workers[j]? = some v →
    w.pc = .serving → v.pc = .serving → w.vars .connfd = v.vars .connfd → i = j
  one_worker : ∀ (i : ℕ) w, s.workers[i]? = some w → w.pc = .serving →
    ∃! j : ℕ, ∃ v, s.workers[j]? = some v ∧ v.pc = .serving ∧ v.vars .connfd = w.conn.connfd

/-- A load takes its field off the pending ones. -/
theorem pending_afterLoad {myarg : Arg} {w : Worker} {f : Field} (hpc : w.pc = .load f)
    (g : Field) : Pending (afterLoad myarg w f).pc g ↔ Pending w.pc g ∧ g ≠ f := by
  rw [hpc]
  cases f <;> cases g <;> simp [afterLoad, Field.nextLoad, Pending, loadRank]

theorem loadedValue_congr {a b : Arg} {f : Field} (h : a f = b f) :
    loadedValue a f = loadedValue b f := by
  cases f <;> simp only [loadedValue, h]

theorem consistent_afterLoad {myarg : Arg} {w : Worker} {f : Field} (hpc : w.pc = .load f)
    (h : Consistent myarg w) : Consistent myarg (afterLoad myarg w f) := by
  have hf : Pending w.pc f := by
    rw [hpc]
    exact Nat.le_refl _
  constructor
  · exact h.socket
  · intro g hg
    rw [pending_afterLoad hpc] at hg
    change Function.update w.vars f (loadedValue myarg f) g = loadedValue w.args g
    by_cases hgf : g = f
    · subst hgf
      rw [Function.update_self]
      exact loadedValue_congr (h.pending g hf)
    · rw [Function.update_of_ne hgf]
      exact h.loaded g fun hp => hg ⟨hp, hgf⟩
  · intro g hg
    rw [pending_afterLoad hpc] at hg
    exact h.pending g hg.1

theorem consistent_closed {myarg : Arg} {w : Worker} (hpc : w.pc = .serving)
    (h : Consistent myarg w) : Consistent myarg { w with pc := .closed } := by
  constructor
  · exact h.socket
  · intro f _
    apply h.loaded
    rw [hpc]
    exact id
  · intro f hf
    exact absurd hf id

/-- A store that changes no pending field leaves a worker consistent. -/
theorem consistent_update {myarg : Arg} {w : Worker} {f : Field} {value : ℤ}
    (hf : Pending w.pc f → myarg f = value) (h : Consistent myarg w) :
    Consistent (Function.update myarg f value) w := by
  constructor
  · exact h.socket
  · exact h.loaded
  · intro g hg
    by_cases hgf : g = f
    · subst hgf
      rw [Function.update_self, ← hf hg]
      exact h.pending g hg
    · rw [Function.update_of_ne hgf]
      exact h.pending g hg

theorem consistent_created (k : Conn) (myarg : Arg) (hk : myarg .connfd = k.connfd) :
    Consistent myarg ⟨k, myarg, .load .connfd, fun _ => 0⟩ where
  socket := hk
  loaded f hf := absurd (Nat.zero_le (loadRank f)) hf
  pending _ _ := rfl

theorem afterRecv_myarg (s : State) (k : Conn) : (afterRecv s k).myarg = s.myarg := by
  unfold afterRecv
  split
  · rfl
  · split <;> rfl

theorem afterRecv_workers (s : State) (k : Conn) : (afterRecv s k).workers = s.workers := by
  unfold afterRecv
  split
  · rfl
  · split <;> rfl

/-- Every worker stays consistent where pending fields are kept. -/
theorem consistent_step {s t : State} {e : Event} (hstored : Stored s)
    (hc : ∀ (i : ℕ) w, s.workers[i]? = some w → Consistent s.myarg w) (h : step s e = some t)
    (hkeep : KeepsPending s e t) : ∀ (i : ℕ) w, t.workers[i]? = some w → Consistent t.myarg w := by
  cases step_cases h with
  | accept_error _ => exact hc
  | accept k _ _ => exact hc
  | recv k _ =>
    rw [afterRecv_myarg, afterRecv_workers]
    exact hc
  | store f k hpc =>
    intro i w hw
    exact consistent_update (hkeep f k rfl hpc i w hw) (hc i w hw)
  | create k hpc =>
    intro i w hw
    rcases getElem?_snoc_cases hw with ⟨-, rfl⟩ | hw
    · apply consistent_created
      have hargs : s.myarg = header k.connfd s.buff := by simpa only [Stored, hpc] using hstored
      rw [hargs]
      rfl
    · exact hc i w hw
  | create_error k _ => exact hc
  | load i w f hw hpc =>
    intro j v hv
    rcases getElem?_set_cases hv with ⟨-, rfl⟩ | ⟨-, hv⟩
    · exact consistent_afterLoad hpc (hc i w hw)
    · exact hc j v hv
  | close i w hw hpc =>
    intro j v hv
    rcases getElem?_set_cases hv with ⟨-, rfl⟩ | ⟨-, hv⟩
    · exact consistent_closed hpc (hc i w hw)
    · exact hc j v hv

/-- A worker that serves has its own socket in its local variable. -/
theorem serving_socket {myarg : Arg} {w : Worker} (hpc : w.pc = .serving)
    (h : Consistent myarg w) : w.vars .connfd = w.conn.connfd := by
  have hloaded := h.loaded .connfd (by rw [hpc]; exact id)
  rw [hloaded]
  exact h.socket

/-- Replacing a worker that is not closed by one with the same connection. -/
theorem sockets_set {s : State} {i : ℕ} {w w' : Worker} (hw : s.workers[i]? = some w)
    (hpc : w.pc ≠ .closed) (hconn : w'.conn = w.conn) (h : Sockets s) :
    Sockets { s with workers := s.workers.set i w' } := by
  have hold : ∀ (j : ℕ) v, (s.workers.set i w')[j]? = some v → v.pc ≠ .closed →
      ∃ u, s.workers[j]? = some u ∧ u.pc ≠ .closed ∧ u.conn = v.conn := by
    intro j v hv hvpc
    rcases getElem?_set_cases hv with ⟨rfl, rfl⟩ | ⟨-, hv⟩
    · exact ⟨w, hw, hpc, hconn.symm⟩
    · exact ⟨v, hv, hvpc, rfl⟩
  constructor
  · intro j v hv hvpc
    obtain ⟨u, hu, hupc, huv⟩ := hold j v hv hvpc
    rw [← huv]
    exact h.opened j u hu hupc
  · intro j j' v v' hv hv' hvpc hvpc' he
    obtain ⟨u, hu, hupc, huv⟩ := hold j v hv hvpc
    obtain ⟨u', hu', hupc', huv'⟩ := hold j' v' hv' hvpc'
    rw [← huv, ← huv'] at he
    exact h.distinct j j' u u' hu hu' hupc hupc' he
  · intro k hk
    obtain ⟨hopen, hother⟩ := h.current k hk
    refine ⟨hopen, ?_⟩
    intro j v hv hvpc
    obtain ⟨u, hu, hupc, huv⟩ := hold j v hv hvpc
    rw [← huv]
    exact hother j u hu hupc

/-- A worker that closes its socket takes no other one away. -/
theorem sockets_close {s : State} {i : ℕ} {w : Worker} (hw : s.workers[i]? = some w)
    (hpc : w.pc = .serving) (hfd : w.vars .connfd = w.conn.connfd) (h : Sockets s) :
    Sockets { s with
      workers := s.workers.set i { w with pc := .closed }
      opened := s.opened.erase (w.vars .connfd) } := by
  have hlive : w.pc ≠ .closed := by
    rw [hpc]
    decide
  have hold : ∀ (j : ℕ) v, (s.workers.set i { w with pc := .closed })[j]? = some v →
      v.pc ≠ .closed → j ≠ i ∧ s.workers[j]? = some v := by
    intro j v hv hvpc
    rcases getElem?_set_cases hv with ⟨-, rfl⟩ | hv
    · exact absurd rfl hvpc
    · exact hv
  rw [hfd]
  constructor
  · intro j v hv hvpc
    obtain ⟨hji, hv⟩ := hold j v hv hvpc
    apply (List.mem_erase_of_ne _).mpr (h.opened j v hv hvpc)
    intro he
    exact hji (h.distinct j i v w hv hw hvpc hlive he)
  · intro j j' v v' hv hv' hvpc hvpc' he
    exact h.distinct j j' v v' (hold j v hv hvpc).2 (hold j' v' hv' hvpc').2 hvpc hvpc' he
  · intro k hk
    obtain ⟨hopen, hother⟩ := h.current k hk
    refine ⟨(List.mem_erase_of_ne (Ne.symm (hother i w hw hlive))).mpr hopen, ?_⟩
    intro j v hv hvpc
    exact hother j v (hold j v hv hvpc).2 hvpc

/-- The main thread gives its connection up, or hands it on to another step. -/
theorem sockets_pc {s : State} {pc : Pc} {buff : ℕ → UInt8} {myarg : Arg}
    (hpc : ∀ k, pc.conn = some k → s.pc.conn = some k) (h : Sockets s) :
    Sockets ⟨pc, buff, myarg, s.workers, s.opened⟩ where
  opened := h.opened
  distinct := h.distinct
  current k hk := h.current k (hpc k hk)

theorem sockets_afterRecv {s : State} {k : Conn} (hpc : s.pc = .recv k) (h : Sockets s) :
    Sockets (afterRecv s k) := by
  have hk : s.pc.conn = some k := by rw [hpc]; rfl
  unfold afterRecv
  split
  · exact sockets_pc (fun k' hk' => hk.trans hk') h
  · split
    · obtain ⟨-, hother⟩ := h.current k hk
      constructor
      · intro i w hw hwpc
        exact (List.mem_erase_of_ne (hother i w hw hwpc)).mpr (h.opened i w hw hwpc)
      · exact h.distinct
      · intro k' hk'
        exact absurd hk' (by simp [Pc.conn])
    · exact sockets_pc (fun k' hk' => hk.trans hk') h

theorem sockets_create {s : State} {k : Conn} (hpc : s.pc = .create k) (h : Sockets s) :
    Sockets { s with
      pc := .accept, workers := s.workers ++ [⟨k, s.myarg, .load .connfd, fun _ => 0⟩] } := by
  obtain ⟨hopen, hother⟩ := h.current k (by rw [hpc]; rfl)
  constructor
  · intro i w hw hwpc
    rcases getElem?_snoc_cases hw with ⟨-, rfl⟩ | hw
    · exact hopen
    · exact h.opened i w hw hwpc
  · intro i j w v hw hv hwpc hvpc he
    rcases getElem?_snoc_cases hw with ⟨hi, rfl⟩ | hw <;>
      rcases getElem?_snoc_cases hv with ⟨hj, rfl⟩ | hv
    · exact hi.trans hj.symm
    · exact absurd he.symm (hother j v hv hvpc)
    · exact absurd he (hother i w hw hwpc)
    · exact h.distinct i j w v hw hv hwpc hvpc he
  · intro k' hk'
    exact absurd hk' (by simp [Pc.conn])

theorem sockets_accept {s : State} {k : Conn} (hfresh : k.connfd ∉ s.opened) (h : Sockets s) :
    Sockets { s with pc := .recv k, opened := k.connfd :: s.opened } := by
  constructor
  · intro i w hw hwpc
    exact List.mem_cons_of_mem _ (h.opened i w hw hwpc)
  · exact h.distinct
  · intro k' hk'
    obtain rfl : k = k' := Option.some.inj hk'
    refine ⟨List.mem_cons_self, ?_⟩
    intro i w hw hwpc he
    apply hfresh
    rw [← he]
    exact h.opened i w hw hwpc

theorem sockets_step {s t : State} {e : Event} (hinv : Inv s) (h : step s e = some t) :
    Sockets t := by
  have hs := hinv.sockets
  cases step_cases h with
  | accept_error _ => exact hs
  | accept k _ hfresh => exact sockets_accept hfresh hs
  | recv k hpc => exact sockets_afterRecv hpc hs
  | store f k hpc =>
    have hk : s.pc.conn = some k := by rw [hpc]; rfl
    apply sockets_pc _ hs
    intro k' hk'
    cases f <;> exact hk.trans hk'
  | create k hpc => exact sockets_create hpc hs
  | create_error k _ => exact sockets_pc (fun k' hk' => absurd hk' (by simp [Pc.conn])) hs
  | load i w f hw hpc => exact sockets_set hw (by rw [hpc]; simp) rfl hs
  | close i w hw hpc => exact sockets_close hw hpc (serving_socket hpc (hinv.consistent i w hw)) hs

theorem inv_step (s : State) (e : Event) (t : State) (hinv : Inv s) (h : step s e = some t)
    (hkeep : KeepsPending s e t) : Inv t where
  stored := stored_step hinv.stored h
  consistent := consistent_step hinv.stored hinv.consistent h hkeep
  sockets := sockets_step hinv h

theorem inv_start (buff : ℕ → UInt8) (myarg : Arg) : Inv (start buff myarg) where
  stored := stored_start buff myarg
  consistent i w hw := absurd hw (by simp [start])
  sockets :=
    { opened := fun i w hw => absurd hw (by simp [start])
      distinct := fun i j w v hw => absurd hw (by simp [start])
      current := fun k hk => absurd hk (by simp [start, Pc.conn]) }

theorem isolated_of_inv {s : State} (hinv : Inv s) : Isolated s := by
  have hsocket : ∀ (i : ℕ) w, s.workers[i]? = some w → w.pc = .serving →
      w.vars .connfd = w.conn.connfd := fun i w hw hpc =>
    serving_socket hpc (hinv.consistent i w hw)
  have hlive : ∀ w : Worker, w.pc = .serving → w.pc ≠ .closed := by
    intro w hpc
    rw [hpc]
    decide
  constructor
  · intro i w hw
    exact (hinv.consistent i w hw).loaded
  · intro i w hw
    exact (hinv.consistent i w hw).socket
  · intro i j w v hw hv hwpc hvpc he
    rw [hsocket i w hw hwpc, hsocket j v hv hvpc] at he
    exact hinv.sockets.distinct i j w v hw hv (hlive w hwpc) (hlive v hvpc) he
  · intro i w hw hwpc
    refine ⟨i, ⟨w, hw, hwpc, hsocket i w hw hwpc⟩, ?_⟩
    rintro j ⟨v, hv, hvpc, he⟩
    rw [hsocket j v hv hvpc] at he
    exact hinv.sockets.distinct j i v w hv hw (hlive v hvpc) (hlive w hwpc) he

/-- Workers are isolated after every run in which no store changes a field that
a created worker has yet to load. -/
theorem workers_isolated (buff : ℕ → UInt8) (myarg : Arg) (es : List Event) (s : State)
    (hkeep : AllSteps step KeepsPending (start buff myarg) es)
    (hrun : exec step (start buff myarg) es = some s) : Isolated s :=
  isolated_of_inv (exec_invariant_of_allSteps step inv_step (inv_start buff myarg) hkeep hrun)

section Sample

theorem keepsPending_of_ne_main {s t : State} {e : Event} (h : e ≠ .main) : KeepsPending s e t :=
  fun _ _ he => absurd he h

theorem keepsPending_of_no_workers {s t : State} {e : Event} (h : s.workers = []) :
    KeepsPending s e t := by
  intro f k _ _ i w hw
  rw [h] at hw
  exact absurd hw (by simp)

/-- A store meets the one worker there is. -/
theorem keepsPending_of_worker {s t : State} {e : Event} {f : Field} {k : Conn} {w : Worker}
    (hpc : s.pc = .store f k) (hworkers : s.workers = [w])
    (h : Pending w.pc f → s.myarg f = header k.connfd s.buff f) : KeepsPending s e t := by
  intro g l _ hg i v hv hpending
  obtain ⟨rfl, rfl⟩ := Pc.store.inj (hpc.symm.trans hg)
  have hmem := List.mem_of_getElem? hv
  rw [hworkers, List.mem_singleton] at hmem
  rw [hmem] at hpending
  exact h hpending

theorem keepsPending_of_loaded {s t : State} {e : Event} {f g : Field} {k : Conn} {w : Worker}
    (hpc : s.pc = .store f k) (hworkers : s.workers = [w]) (hw : w.pc = .load g)
    (hrank : loadRank f < loadRank g) : KeepsPending s e t := by
  apply keepsPending_of_worker hpc hworkers
  intro hpending
  rw [hw] at hpending
  exact absurd hrank (Nat.not_lt.mpr hpending)

def agreeing : List Event :=
  accepted (clientConn 4 1 2 3) ++ [.load 0, .load 0] ++ accepted (clientConn 5 1 5 3) ++
    [.load 0, .load 0, .load 1, .load 1, .load 1, .load 1]

theorem workers_isolated_agreeing : ∃ s,
    exec step (start (fun _ => 0) fun _ => 0) agreeing = some s ∧
    s.workers.map (fun w => (w.pc, w.conn.connfd, w.vars .connfd, w.vars .fps)) =
      [(.serving, 4, 4, 2), (.serving, 5, 5, 5)] ∧
    Isolated s := by
  refine ⟨_, rfl, by decide,
    workers_isolated (fun _ => 0) (fun _ => 0) agreeing _ ?_ rfl⟩
  apply (allSteps_cons step rfl).mpr ⟨keepsPending_of_ne_main (by simp), ?_⟩
  iterate 5 apply (allSteps_cons step rfl).mpr ⟨keepsPending_of_no_workers rfl, ?_⟩
  iterate 4 apply (allSteps_cons step rfl).mpr ⟨keepsPending_of_ne_main (by simp), ?_⟩
  apply (allSteps_cons step rfl).mpr ⟨fun _ _ _ hpc => absurd hpc (by simp), ?_⟩
  -- `c` is stored while it is pending, with the value it has.
  apply (allSteps_cons step rfl).mpr ⟨keepsPending_of_worker rfl rfl fun _ => rfl, ?_⟩
  iterate 2 apply (allSteps_cons step rfl).mpr ⟨keepsPending_of_loaded rfl rfl rfl (by decide), ?_⟩
  apply (allSteps_cons step rfl).mpr ⟨keepsPending_of_worker rfl rfl fun _ => rfl, ?_⟩
  iterate 7 apply (allSteps_cons step rfl).mpr ⟨keepsPending_of_ne_main (by simp), ?_⟩
  trivial

def race : List Event :=
  accepted (clientConn 4 1 2 3) ++ accepted (clientConn 5 4 5 6) ++
    [.load 0, .load 0, .load 0, .load 0, .load 1, .load 1, .load 1, .load 1]

/-- With the second client admitted before the first thread loads anything, both threads
serve socket 5, with the second client's values, and nobody serves socket 4. -/
theorem race_not_isolated : ∃ s,
    exec step (start (fun _ => 0) fun _ => 0) race = some s ∧
    s.workers.map (fun w => (w.pc, w.conn.connfd, w.vars .connfd, w.vars .fps)) =
      [(.serving, 4, 5, 5), (.serving, 5, 5, 5)] ∧
    ¬ Isolated s := by
  refine ⟨_, rfl, by decide, ?_⟩
  intro h
  have he := h.distinct_sockets 0 1 _ _ rfl rfl rfl rfl rfl
  exact absurd he (by decide)

end Sample

end Fixed.WorkerIsolation
