import Fixed.Runs
import Fixed.ByteFile
import Mathlib.Logic.Function.Basic

/-!
The accept loop of `testAndroidServer` and its worker threads, one memory
access at a time. The main thread receives a header into `buff`, stores four
values into `myarg` and creates a thread with its address; the thread loads
the four fields in an order of its own. Connections, the results of their
first `recv` and the order of all steps are decided outside.
-/
namespace Fixed.StreamServer

open ByteFile Runs

inductive Recv
  | bytes (n : ℕ)
  /-- -1, with this `errno`. -/
  | error (errno : ℤ)
deriving DecidableEq, Repr

def EAGAIN : ℤ := 11

def sizeof_buff : ℕ := 8296

/-- An accepted connection: its socket, what its peer sends, and what the
first `recv` on it returns. -/
structure Conn where
  connfd : ℤ
  connfd_nonneg : 0 ≤ connfd
  stream : List UInt8
  recvd : Recv
  recvd_le : ∀ n, recvd = .bytes n → n ≤ sizeof_buff ∧ n ≤ stream.length

inductive Field
  | connfd
  | fps
  | imagesize
  | c
deriving DecidableEq, Repr

abbrev Arg := Field → ℤ

def Field.nextStore : Field → Option Field
  | .c => some .connfd
  | .connfd => some .fps
  | .fps => some .imagesize
  | .imagesize => none

def Field.nextLoad : Field → Option Field
  | .connfd => some .fps
  | .fps => some .c
  | .c => some .imagesize
  | .imagesize => none

/-- What main stores for a connection; `char` is unsigned on the target. -/
def header (connfd : ℤ) (buff : ℕ → UInt8) : Arg
  | .connfd => connfd
  | .fps => (buff 1).toNat
  | .imagesize => (buff 2).toNat
  | .c => (buff 0).toNat

def loadedValue (myarg : Arg) : Field → ℤ
  | .imagesize => myarg .imagesize * 1024
  | f => myarg f

inductive WorkerPc
  | load (f : Field)
  | serving
  | closed
deriving DecidableEq, Repr

/-- A thread: its local variables, and, unseen by the program, the connection
it was created for and the content of `myarg` at that moment. -/
structure Worker where
  conn : Conn
  args : Arg
  pc : WorkerPc
  vars : Field → ℤ

inductive Pc
  | accept
  | recv (k : Conn)
  | store (f : Field) (k : Conn)
  | create (k : Conn)
  /-- `main` has returned and every thread has ended. -/
  | exited

structure State where
  pc : Pc
  buff : ℕ → UInt8
  myarg : Arg
  workers : List Worker
  /-- The connection sockets that are open. -/
  opened : List ℤ

def State.exited (s : State) : Bool :=
  match s.pc with
  | .exited => true
  | _ => false

inductive Event
  /-- `accept` returns, -1 without a connection. -/
  | accept (k : Option Conn)
  /-- The next `recv` or store of the main thread. -/
  | main
  /-- `pthread_create` returns, successfully or not. -/
  | create (ok : Bool)
  | load (i : ℕ)
  /-- Worker `i` leaves its loop and closes its socket. -/
  | close (i : ℕ)

/-- The main thread behind a `recv`: only a time-out is singled out. -/
def afterRecv (s : State) (k : Conn) : State :=
  match k.recvd with
  | .bytes n => { s with buff := splice s.buff 0 (k.stream.take n), pc := .store .c k }
  | .error errno =>
    if errno = EAGAIN then { s with opened := s.opened.erase k.connfd, pc := .accept }
    else { s with pc := .store .c k }

def afterStore (s : State) (f : Field) (k : Conn) : State :=
  { s with
    myarg := Function.update s.myarg f (header k.connfd s.buff f)
    pc := match f.nextStore with
      | some g => .store g k
      | none => .create k }

def afterLoad (myarg : Arg) (w : Worker) (f : Field) : Worker :=
  { w with
    vars := Function.update w.vars f (loadedValue myarg f)
    pc := match f.nextLoad with
      | some g => .load g
      | none => .serving }

def step (s : State) : Event → Option State
  | .accept none =>
    match s.pc with
    | .accept => some s
    | _ => none
  | .accept (some k) =>
    match s.pc with
    | .accept =>
      if k.connfd ∉ s.opened then
        some { s with pc := .recv k, opened := k.connfd :: s.opened }
      else none
    | _ => none
  | .main =>
    match s.pc with
    | .recv k => some (afterRecv s k)
    | .store f k => some (afterStore s f k)
    | _ => none
  | .create ok =>
    match s.pc with
    | .create k =>
      some (if ok then
        { s with pc := .accept, workers := s.workers ++ [⟨k, s.myarg, .load .connfd, fun _ => 0⟩] }
      else { s with pc := .exited })
    | _ => none
  | .load i =>
    if s.exited then none
    else s.workers[i]?.bind fun w =>
      match w.pc with
      | .load f => some { s with workers := s.workers.set i (afterLoad s.myarg w f) }
      | _ => none
  | .close i =>
    if s.exited then none
    else s.workers[i]?.bind fun w =>
      match w.pc with
      | .serving =>
        some { s with
          workers := s.workers.set i { w with pc := .closed }
          opened := s.opened.erase (w.vars .connfd) }
      | _ => none

def start (buff : ℕ → UInt8) (myarg : Arg) : State := ⟨.accept, buff, myarg, [], []⟩

theorem step_accept {s : State} {k : Conn} (hpc : s.pc = .accept) (hfresh : k.connfd ∉ s.opened) :
    step s (.accept (some k)) =
      some { s with pc := .recv k, opened := k.connfd :: s.opened } := by
  simp only [step, hpc]
  exact if_pos hfresh

inductive Step (s : State) : Event → State → Prop
  | accept_error : s.pc = .accept → Step s (.accept none) s
  | accept (k : Conn) : s.pc = .accept → k.connfd ∉ s.opened →
      Step s (.accept (some k)) { s with pc := .recv k, opened := k.connfd :: s.opened }
  | recv (k : Conn) : s.pc = .recv k → Step s .main (afterRecv s k)
  | store (f : Field) (k : Conn) : s.pc = .store f k → Step s .main (afterStore s f k)
  | create (k : Conn) : s.pc = .create k →
      Step s (.create true) { s with
        pc := .accept, workers := s.workers ++ [⟨k, s.myarg, .load .connfd, fun _ => 0⟩] }
  | create_error (k : Conn) : s.pc = .create k → Step s (.create false) { s with pc := .exited }
  | load (i : ℕ) (w : Worker) (f : Field) : s.workers[i]? = some w → w.pc = .load f →
      Step s (.load i) { s with workers := s.workers.set i (afterLoad s.myarg w f) }
  | close (i : ℕ) (w : Worker) : s.workers[i]? = some w → w.pc = .serving →
      Step s (.close i) { s with
        workers := s.workers.set i { w with pc := .closed }
        opened := s.opened.erase (w.vars .connfd) }

theorem step_cases {s t : State} {e : Event} (h : step s e = some t) : Step s e t := by
  cases e with
  | accept k =>
    cases hpc : s.pc <;> cases k <;> simp only [step, hpc] at h <;> try cases h
    · exact .accept_error hpc
    · split at h
      · rename_i k hk
        cases h
        exact .accept k hpc hk
      · cases h
  | main =>
    cases hpc : s.pc <;> simp only [step, hpc] at h <;> cases h
    · exact .recv _ hpc
    · exact .store _ _ hpc
  | create ok =>
    cases hpc : s.pc <;> cases ok <;> simp only [step, hpc] at h <;> cases h
    · exact .create_error _ hpc
    · exact .create _ hpc
  | load i =>
    simp only [step] at h
    split at h
    · cases h
    · obtain ⟨w, hw, h⟩ := Option.bind_eq_some_iff.mp h
      cases hwpc : w.pc <;> simp only [hwpc] at h <;> cases h
      exact .load i w _ hw hwpc
  | close i =>
    simp only [step] at h
    split at h
    · cases h
    · obtain ⟨w, hw, h⟩ := Option.bind_eq_some_iff.mp h
      cases hwpc : w.pc <;> simp only [hwpc] at h <;> cases h
      exact .close i w hw hwpc

def Pc.conn : Pc → Option Conn
  | .accept => none
  | .recv k => some k
  | .store _ k => some k
  | .create k => some k
  | .exited => none

def Field.storeRank : Field → ℕ
  | .c => 0
  | .connfd => 1
  | .fps => 2
  | .imagesize => 3

def Stored (s : State) : Prop :=
  match s.pc with
  | .store f k => ∀ g, g.storeRank < f.storeRank → s.myarg g = header k.connfd s.buff g
  | .create k => s.myarg = header k.connfd s.buff
  | _ => True

theorem stored_afterStore {s : State} {f : Field} {k : Conn} (hpc : s.pc = .store f k)
    (h : Stored s) : Stored (afterStore s f k) := by
  have hbefore : ∀ g, g.storeRank < f.storeRank → s.myarg g = header k.connfd s.buff g := by
    simpa only [Stored, hpc] using h
  have hnow : ∀ g, g.storeRank ≤ f.storeRank →
      Function.update s.myarg f (header k.connfd s.buff f) g = header k.connfd s.buff g := by
    intro g hg
    by_cases hgf : g = f
    · rw [hgf, Function.update_self]
    · rw [Function.update_of_ne hgf]
      apply hbefore
      cases f <;> cases g <;> simp_all [Field.storeRank]
  cases f with
  | imagesize =>
    simp only [Stored, afterStore, Field.nextStore]
    funext g
    apply hnow
    cases g <;> decide
  | _ =>
    simp only [Stored, afterStore, Field.nextStore]
    intro g hg
    exact hnow g (Nat.lt_succ_iff.mp hg)

theorem stored_afterRecv (s : State) (k : Conn) : Stored (afterRecv s k) := by
  unfold afterRecv
  split
  · intro g hg
    exact absurd hg (Nat.not_lt_zero _)
  · split
    · trivial
    · intro g hg
      exact absurd hg (Nat.not_lt_zero _)

/-- When a thread is created, `myarg` holds the values of its connection. -/
theorem stored_step {s t : State} {e : Event} (hs : Stored s) (h : step s e = some t) :
    Stored t := by
  cases step_cases h with
  | accept_error _ => exact hs
  | accept k _ _ => trivial
  | recv k _ => exact stored_afterRecv s k
  | store f k hpc => exact stored_afterStore hpc hs
  | create k _ => trivial
  | create_error k _ => trivial
  | load i w f _ _ => exact hs
  | close i w _ _ => exact hs

theorem stored_start (buff : ℕ → UInt8) (myarg : Arg) : Stored (start buff myarg) := trivial

section Workers

variable {ws : List Worker} {w v : Worker} {i j : ℕ}

/-- A worker behind a change of worker `i`. -/
theorem getElem?_set_cases (h : (ws.set i w)[j]? = some v) :
    j = i ∧ v = w ∨ j ≠ i ∧ ws[j]? = some v := by
  rw [List.getElem?_set] at h
  split at h
  · rename_i hij
    split at h
    · exact Or.inl ⟨hij.symm, (Option.some.inj h).symm⟩
    · exact absurd h (by simp)
  · rename_i hij
    exact Or.inr ⟨Ne.symm hij, h⟩

/-- What holds of all workers is kept by a change to one that meets it. -/
theorem forall_mem_set {p : Worker → Prop} (hall : ∀ v ∈ ws, p v) (hw : p w) :
    ∀ v ∈ ws.set i w, p v := by
  intro v hv
  rcases List.mem_or_eq_of_mem_set hv with hv | rfl
  · exact hall v hv
  · exact hw

/-- A worker behind a creation. -/
theorem getElem?_snoc_cases (h : (ws ++ [w])[j]? = some v) :
    j = ws.length ∧ v = w ∨ ws[j]? = some v := by
  rw [List.getElem?_append] at h
  split at h
  · exact Or.inr h
  · rename_i hj
    rw [List.getElem?_singleton] at h
    split at h
    · exact Or.inl ⟨by omega, (Option.some.inj h).symm⟩
    · exact absurd h (by simp)

end Workers

def accepted (k : Conn) : List Event :=
  [.accept (some k), .main, .main, .main, .main, .main, .create true]

def clientConn (connfd : ℕ) (c fps imagesize : UInt8) : Conn where
  connfd := connfd
  connfd_nonneg := Int.natCast_nonneg connfd
  stream := [c, fps, imagesize]
  recvd := .bytes 3
  recvd_le n hn := by
    cases hn
    exact ⟨by decide, le_rfl⟩

end Fixed.StreamServer
