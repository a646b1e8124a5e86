import Fixed.StreamServer
import Mathlib.Data.Nat.ModEq

/-!
The byte count of `thread1`. Each round may report the count and start it again,
receives, and adds what was received. A failing `recv` sets `errno`, which a
successful probe leaves alone, so the thread breaks off before the -1 would be
added. After every run the reported counts and the current one make up the bytes
received in its rounds, as far as the counter is wide.
-/
namespace Fixed.ThroughputCount

open Runs StreamServer

structure Timeval where
  tv_sec : ℤ
  tv_usec : ℤ

/-- What the system answers in one round: the clock, the `recv`, the result of the
probe and the `errno` behind it. A failing `recv` sets `errno`, and a successful
`send` does not clear it. -/
structure Round where
  current_time : Timeval
  recvd : Recv
  try_send : ℤ
  errno : ℤ
  recv_sets_errno : ∀ e, recvd = .error e → e ≠ 0
  send_keeps_errno : ∀ e, recvd = .error e → e ≠ 0 → 0 ≤ try_send → errno ≠ 0

def Round.n (r : Round) : ℤ :=
  match r.recvd with
  | .bytes n => n
  | .error _ => -1

def Round.received (r : Round) : ℕ :=
  match r.recvd with
  | .bytes n => n
  | .error _ => 0

structure Thread (w : ℕ) where
  old_time : Timeval
  recv_count : BitVec w
  reported : List (BitVec w)
  closed : Bool

def start (w : ℕ) (old_time : Timeval) : Thread w := ⟨old_time, 0, [], false⟩

def elapsed (old_time current_time : Timeval) : Prop :=
  1000000 * (current_time.tv_sec - old_time.tv_sec) + current_time.tv_usec - old_time.tv_usec >
    1000000

instance (old_time current_time : Timeval) : Decidable (elapsed old_time current_time) :=
  inferInstanceAs (Decidable (_ > _))

variable {w : ℕ}

def report (s : Thread w) (current_time : Timeval) : Thread w :=
  if elapsed s.old_time current_time then
    { s with
      reported := s.reported ++ [s.recv_count]
      recv_count := 0
      old_time := current_time }
  else s

def receive (s : Thread w) (r : Round) : Thread w :=
  if r.n ≤ 0 ∧ (r.try_send < 0 ∨ r.errno ≠ 0) then { s with closed := true }
  else { s with recv_count := s.recv_count + BitVec.ofInt w r.n }

def step (s : Thread w) (r : Round) : Option (Thread w) :=
  if s.closed then none else some (receive (report s r.current_time) r)

def Thread.counted (s : Thread w) : ℕ := (s.reported.map BitVec.toNat).sum + s.recv_count.toNat

/-- A round whose `recv` fails only reports and leaves the loop. -/
def AddsNoError (s : Thread w) (r : Round) (t : Thread w) : Prop :=
  r.n < 0 → t = { report s r.current_time with closed := true }

/-- A report moves the count and loses nothing of it. -/
theorem counted_report (s : Thread w) (current_time : Timeval) :
    (report s current_time).counted = s.counted := by
  unfold report
  split
  · simp [Thread.counted, List.sum_append]
  · rfl

/-- A failing `recv` ends the thread. -/
theorem breaks_of_error (r : Round) {e : ℤ} (h : r.recvd = .error e) :
    r.n ≤ 0 ∧ (r.try_send < 0 ∨ r.errno ≠ 0) := by
  have herrno := r.send_keeps_errno e h (r.recv_sets_errno e h)
  have hn : r.n = -1 := by rw [Round.n, h]
  refine ⟨by omega, ?_⟩
  by_cases hsend : r.try_send < 0
  · exact Or.inl hsend
  · exact Or.inr (herrno (not_lt.mp hsend))

theorem counted_receive (s : Thread w) (r : Round) :
    (receive s r).counted ≡ s.counted + r.received [MOD 2 ^ w] := by
  cases h : r.recvd with
  | error e =>
    rw [receive, if_pos (breaks_of_error r h), Round.received, h]
    exact Nat.ModEq.rfl
  | bytes n =>
    have hn : r.n = n := by rw [Round.n, h]
    have hreceived : r.received = n := by rw [Round.received, h]
    unfold receive
    rw [hn, hreceived]
    split
    · rename_i hbreak
      have hzero : n = 0 := by omega
      rw [hzero]
      exact Nat.ModEq.rfl
    · rw [BitVec.ofInt_natCast, Thread.counted, Thread.counted, Nat.add_assoc]
      apply Nat.ModEq.add_left
      rw [BitVec.toNat_add, BitVec.toNat_ofNat]
      exact (Nat.mod_modEq _ _).trans ((Nat.mod_modEq n _).add_left _)

theorem counted_step {s t : Thread w} {r : Round} (h : step s r = some t) :
    t.counted ≡ s.counted + r.received [MOD 2 ^ w] := by
  unfold step at h
  split at h
  · cases h
  · obtain rfl := Option.some.inj h
    rw [← counted_report s r.current_time]
    exact counted_receive _ r

theorem addsNoError_step {s t : Thread w} {r : Round} (h : step s r = some t) :
    AddsNoError s r t := by
  intro hn
  unfold step at h
  split at h
  · cases h
  · obtain rfl := Option.some.inj h
    cases hr : r.recvd with
    | error e => rw [receive, if_pos (breaks_of_error r hr)]
    | bytes n =>
      rw [Round.n, hr] at hn
      exact absurd hn (not_lt.mpr (Int.natCast_nonneg n))

/-- What a run adds to the counts. -/
theorem counted_run {s t : Thread w} {rs : List Round} (h : exec step s rs = some t) :
    t.counted ≡ s.counted + (rs.map Round.received).sum [MOD 2 ^ w] := by
  induction rs generalizing s with
  | nil =>
    obtain rfl : s = t := Option.some.inj h
    exact Nat.ModEq.rfl
  | cons r rs ih =>
    obtain ⟨m, hm, hrest⟩ := (exec_cons_eq_some step).mp h
    rw [List.map_cons, List.sum_cons, ← Nat.add_assoc]
    exact (ih hrest).trans ((counted_step hm).add_right _)

/-- After every run the reported counts and the current one are the bytes received in
its rounds, modulo the width of the counter, and no -1 was added. -/
theorem throughput_accounted (w : ℕ) (old_time : Timeval) (rs : List Round) (s : Thread w)
    (h : exec step (start w old_time) rs = some s) :
    (s.reported.map BitVec.toNat).sum + s.recv_count.toNat ≡
        (rs.map Round.received).sum [MOD 2 ^ w] ∧
      AllSteps step AddsNoError (start w old_time) rs := by
  constructor
  · have hrun := counted_run h
    have hstart : (start w old_time).counted = 0 := by simp [Thread.counted, start]
    rw [hstart, Nat.zero_add] at hrun
    exact hrun
  · apply allSteps_of_invariant step (I := fun _ => True) (G := fun _ _ _ => True)
    · intro _ _ _ _ _ _
      trivial
    · intro _ _ _ _ ht _
      exact addsNoError_step ht
    · trivial
    · exact allSteps_of_forall step (fun _ _ _ _ => trivial) _

section Sample

def received (tv_sec : ℤ) (n : ℕ) : Round where
  current_time := ⟨tv_sec, 0⟩
  recvd := .bytes n
  try_send := 7
  errno := 0
  recv_sets_errno := nofun
  send_keeps_errno := nofun

def reset (tv_sec : ℤ) : Round where
  current_time := ⟨tv_sec, 0⟩
  recvd := .error 104
  try_send := 7
  errno := 104
  recv_sets_errno _ h := by
    obtain rfl := Recv.error.inj h
    decide
  send_keeps_errno _ _ _ _ := by decide

/-- Two receptions, a report, a reception of nothing, and a reset. -/
theorem throughput_accounted_reset : ∃ s,
    exec step (start 64 ⟨0, 0⟩)
      [received 1 100, received 1 200, received 2 50, received 2 0, reset 2] = some s ∧
    s.reported = [300] ∧ s.recv_count = 50 ∧ s.closed = true ∧
    (s.reported.map BitVec.toNat).sum + s.recv_count.toNat ≡ 350 [MOD 2 ^ 64] := by
  refine ⟨_, rfl, by decide, by decide, by decide, ?_⟩
  exact (throughput_accounted 64 ⟨0, 0⟩
    [received 1 100, received 1 200, received 2 50, received 2 0, reset 2] _ rfl).1

end Sample

end Fixed.ThroughputCount
