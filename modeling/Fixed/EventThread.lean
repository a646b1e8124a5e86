import Fixed.Runs
import Mathlib.Tactic.Common

/-!
The event thread of `isp_function.cpp` from its first `init` to its last `uninit`. One
semaphore carries both the `Start` that the thread waits for and its farewell, the
thread detaches itself, and `uninit` joins it before it is told to break off. So
`uninit` is sure to be able to return, and not before the thread has finished, exactly
when the thread has taken the only `Start` there was, or has finished already.
-/
namespace Fixed.EventThread

open Runs

inductive Thread
  | detaching | waiting | testing | waitIrq | posting | finished
deriving DecidableEq

inductive Caller
  | initialising | running | joining | joined | waiting | returned
deriving DecidableEq

structure State where
  thread : Thread
  caller : Caller
  m_semIspEventthread : ℕ
  m_bBreak : Bool
  /-- The calls of `Start`. -/
  starts : ℕ

inductive Event
  | caller
  | thread
  | start
deriving DecidableEq

/-- `init` once the thread is created, and `uninit` of the last user. A thread that is
detached, or gone, is not waited for. -/
def callerStep (s : State) : Option State :=
  match s.caller with
  | .initialising => some { s with m_bBreak := false, caller := .running }
  | .running =>
    if s.thread = .detaching then some { s with caller := .joining }
    else some { s with caller := .joined }
  | .joining => if s.thread = .finished then some { s with caller := .joined } else none
  | .joined => some { s with m_bBreak := true, caller := .waiting }
  | .waiting =>
    if 0 < s.m_semIspEventthread then
      some { s with m_semIspEventthread := s.m_semIspEventthread - 1, caller := .returned }
    else none
  | .returned => none

def ispEventThread (s : State) : Option State :=
  match s.thread with
  | .detaching => some { s with thread := .waiting }
  | .waiting =>
    if 0 < s.m_semIspEventthread then
      some { s with m_semIspEventthread := s.m_semIspEventthread - 1, thread := .testing }
    else none
  | .testing =>
    if s.m_bBreak then some { s with thread := .posting }
    else some { s with thread := .waitIrq }
  | .waitIrq => some { s with thread := .testing }
  | .posting =>
    some { s with m_semIspEventthread := s.m_semIspEventthread + 1, thread := .finished }
  | .finished => none

def Start (s : State) : State :=
  { s with m_semIspEventthread := s.m_semIspEventthread + 1, starts := s.starts + 1 }

def step (s : State) : Event → Option State
  | .caller => callerStep s
  | .thread => ispEventThread s
  | .start => some (Start s)

/-- `init` has created the thread; `m_bBreak` is what an earlier `uninit` left. -/
def initial (m_bBreak : Bool) : State := ⟨.detaching, .initialising, 0, m_bBreak, 0⟩

def Thread.taken : Thread → ℕ
  | .detaching => 0
  | .waiting => 0
  | _ => 1

def Thread.posted : Thread → ℕ
  | .finished => 1
  | _ => 0

def Caller.taken : Caller → ℕ
  | .returned => 1
  | _ => 0

def CanReturn (s : State) : Prop :=
  ∃ es t, Event.start ∉ es ∧ exec step s es = some t ∧ t.caller = .returned

/-- Without another `Start`, `uninit` never returns before the thread has finished, and
at no point has it lost the chance to return. -/
def Safe (s : State) : Prop :=
  ∀ es t, Event.start ∉ es → exec step s es = some t →
    (t.caller = .returned → t.thread = .finished) ∧ CanReturn t

/-- Every post of the semaphore is taken once or still there, and a thread that is
joined is never told to break off. -/
structure Accounted (s : State) : Prop where
  posts : s.m_semIspEventthread + s.thread.taken + s.caller.taken = s.starts + s.thread.posted
  started : s.thread.taken ≤ s.starts
  told : s.caller = .waiting → s.m_bBreak = true
  joining : s.caller = .joining →
    s.m_bBreak = false ∧ s.thread ≠ .posting ∧ s.thread ≠ .finished
  running : s.caller = .running → s.m_bBreak = false

structure Taken (s : State) : Prop where
  accounted : Accounted s
  taken : s.thread = .finished ∨ s.thread.taken = 1 ∧ s.starts = 1
  caller : s.caller ≠ .initialising ∧ s.caller ≠ .joining

section Runs

variable {s t : State} {e : Event}

theorem accounted_initial (m_bBreak : Bool) : Accounted (initial m_bBreak) := by
  refine ⟨rfl, Nat.le_refl 0, ?_, ?_, ?_⟩
  · exact fun h => absurd h Caller.noConfusion
  · exact fun h => absurd h Caller.noConfusion
  · exact fun h => absurd h Caller.noConfusion

theorem accounted_caller (hs : Accounted s) (h : callerStep s = some t) : Accounted t := by
  obtain ⟨thread, caller, sem, brk, starts⟩ := s
  obtain ⟨hposts, hstarted, htold, hjoining, hrunning⟩ := hs
  cases caller with
  | initialising =>
    obtain rfl := Option.some.inj h
    exact ⟨hposts, hstarted, by simp, by simp, by simp⟩
  | running =>
    have hfalse : brk = false := hrunning rfl
    simp only [callerStep] at h
    split at h
    · next hd =>
      obtain rfl := Option.some.inj h
      exact ⟨hposts, hstarted, by simp, by simp [hfalse, hd], by simp⟩
    · obtain rfl := Option.some.inj h
      exact ⟨hposts, hstarted, by simp, by simp, by simp⟩
  | joining =>
    simp only [callerStep] at h
    split at h
    · next hf => exact absurd hf (hjoining rfl).2.2
    · exact absurd h (by simp)
  | joined =>
    obtain rfl := Option.some.inj h
    exact ⟨hposts, hstarted, by simp, by simp, by simp⟩
  | waiting =>
    simp only [callerStep] at h
    split at h
    · obtain rfl := Option.some.inj h
      refine ⟨?_, hstarted, by simp, by simp, by simp⟩
      simp only [Caller.taken] at hposts ⊢
      omega
    · exact absurd h (by simp)
  | returned => exact absurd h (by simp [callerStep])

theorem accounted_thread (hs : Accounted s) (h : ispEventThread s = some t) : Accounted t := by
  obtain ⟨thread, caller, sem, brk, starts⟩ := s
  obtain ⟨hposts, hstarted, htold, hjoining, hrunning⟩ := hs
  cases thread with
  | detaching =>
    obtain rfl := Option.some.inj h
    exact ⟨hposts, hstarted, htold, fun hc => ⟨(hjoining hc).1, by simp, by simp⟩, hrunning⟩
  | waiting =>
    simp only [ispEventThread] at h
    split at h
    · obtain rfl := Option.some.inj h
      simp only [Thread.taken, Thread.posted] at hposts
      refine ⟨?_, ?_, htold, fun hc => ⟨(hjoining hc).1, by simp, by simp⟩, hrunning⟩
      · simp only [Thread.taken, Thread.posted]
        omega
      · simp only [Thread.taken]
        omega
    · exact absurd h (by simp)
  | testing =>
    simp only [ispEventThread] at h
    split at h
    · next hbrk =>
      obtain rfl := Option.some.inj h
      refine ⟨hposts, hstarted, htold, fun hc => ?_, hrunning⟩
      have hfalse : brk = false := (hjoining hc).1
      rw [hfalse] at hbrk
      exact absurd hbrk Bool.false_ne_true
    · obtain rfl := Option.some.inj h
      exact ⟨hposts, hstarted, htold, fun hc => ⟨(hjoining hc).1, by simp, by simp⟩, hrunning⟩
  | waitIrq =>
    obtain rfl := Option.some.inj h
    exact ⟨hposts, hstarted, htold, fun hc => ⟨(hjoining hc).1, by simp, by simp⟩, hrunning⟩
  | posting =>
    obtain rfl := Option.some.inj h
    refine ⟨?_, hstarted, htold, fun hc => absurd rfl (hjoining hc).2.1, hrunning⟩
    simp only [Thread.taken, Thread.posted] at hposts ⊢
    omega
  | finished => exact absurd h (by simp [ispEventThread])

theorem accounted_step (hs : Accounted s) (h : step s e = some t) : Accounted t := by
  cases e with
  | caller => exact accounted_caller hs h
  | thread => exact accounted_thread hs h
  | start =>
    obtain rfl := Option.some.inj h
    obtain ⟨hposts, hstarted, htold, hjoining, hrunning⟩ := hs
    refine ⟨?_, Nat.le_succ_of_le hstarted, htold, hjoining, hrunning⟩
    simp only [Start] at hposts ⊢
    omega

theorem accounted_exec {es : List Event} (hs : Accounted s) (hrun : exec step s es = some t) :
    Accounted t :=
  exec_invariant step (fun _ _ _ hs h => accounted_step hs h) hs hrun

/-- What the thread leaves alone. -/
theorem thread_frame (h : ispEventThread s = some t) :
    t.caller = s.caller ∧ t.starts = s.starts ∧ t.m_bBreak = s.m_bBreak ∧
      s.thread.taken ≤ t.thread.taken ∧ s.thread ≠ .finished := by
  obtain ⟨thread, caller, sem, brk, starts⟩ := s
  cases thread with
  | detaching =>
    obtain rfl := Option.some.inj h
    exact ⟨rfl, rfl, rfl, Nat.zero_le _, by simp⟩
  | waiting =>
    simp only [ispEventThread] at h
    split at h
    · obtain rfl := Option.some.inj h
      exact ⟨rfl, rfl, rfl, Nat.zero_le _, by simp⟩
    · exact absurd h (by simp)
  | testing =>
    simp only [ispEventThread] at h
    split at h
    · obtain rfl := Option.some.inj h
      exact ⟨rfl, rfl, rfl, Nat.le_refl _, by simp⟩
    · obtain rfl := Option.some.inj h
      exact ⟨rfl, rfl, rfl, Nat.le_refl _, by simp⟩
  | waitIrq =>
    obtain rfl := Option.some.inj h
    exact ⟨rfl, rfl, rfl, Nat.le_refl _, by simp⟩
  | posting =>
    obtain rfl := Option.some.inj h
    exact ⟨rfl, rfl, rfl, Nat.le_refl _, by simp⟩
  | finished => exact absurd h (by simp [ispEventThread])

/-- What the caller leaves alone, and when it comes to join the thread. -/
theorem caller_frame (h : callerStep s = some t) :
    t.thread = s.thread ∧ t.starts = s.starts ∧ t.caller ≠ .initialising ∧
      s.caller ≠ .returned ∧
      (t.caller = .joining → s.caller = .running ∧ s.thread = .detaching) ∧
      (s.caller = .joining → s.thread = .finished) := by
  obtain ⟨thread, caller, sem, brk, starts⟩ := s
  cases caller with
  | initialising =>
    obtain rfl := Option.some.inj h
    exact ⟨rfl, rfl, by simp, by simp, by simp, by simp⟩
  | running =>
    simp only [callerStep] at h
    split at h
    · next hd =>
      obtain rfl := Option.some.inj h
      exact ⟨rfl, rfl, by simp, by simp, fun _ => ⟨rfl, hd⟩, by simp⟩
    · obtain rfl := Option.some.inj h
      exact ⟨rfl, rfl, by simp, by simp, by simp, by simp⟩
  | joining =>
    simp only [callerStep] at h
    split at h
    · next hf =>
      obtain rfl := Option.some.inj h
      exact ⟨rfl, rfl, by simp, by simp, by simp, fun _ => hf⟩
    · exact absurd h (by simp)
  | joined =>
    obtain rfl := Option.some.inj h
    exact ⟨rfl, rfl, by simp, by simp, by simp, by simp⟩
  | waiting =>
    simp only [callerStep] at h
    split at h
    · obtain rfl := Option.some.inj h
      exact ⟨rfl, rfl, by simp, by simp, by simp, by simp⟩
    · exact absurd h (by simp)
  | returned => exact absurd h (by simp [callerStep])

theorem starts_run {es : List Event} (hes : Event.start ∉ es) (hrun : exec step s es = some t) :
    t.starts = s.starts := by
  induction es generalizing s with
  | nil =>
    obtain rfl : s = t := Option.some.inj hrun
    rfl
  | cons e es ih =>
    obtain ⟨m, hm, hrest⟩ := (exec_cons_eq_some step).mp hrun
    rw [List.mem_cons, not_or] at hes
    have hstep : m.starts = s.starts := by
      cases e with
      | caller => exact (caller_frame hm).2.1
      | thread => exact (thread_frame hm).2.1
      | start => exact absurd rfl hes.1
    exact (ih hes.2 hrest).trans hstep

/-- Who joins the thread before it is detached waits for ever. -/
theorem joining_forever {es : List Event} (hs : Accounted s) (hjoin : s.caller = .joining)
    (hrun : exec step s es = some t) : t.caller = .joining := by
  have hboth : Accounted t ∧ t.caller = .joining := by
    refine exec_invariant step (I := fun s => Accounted s ∧ s.caller = .joining) ?_
      ⟨hs, hjoin⟩ hrun
    rintro s e t ⟨hs, hjoin⟩ h
    refine ⟨accounted_step hs h, ?_⟩
    cases e with
    | caller => exact absurd ((caller_frame h).2.2.2.2.2 hjoin) (hs.joining hjoin).2.2
    | thread => exact (thread_frame h).1.trans hjoin
    | start =>
      obtain rfl := Option.some.inj h
      exact hjoin
  exact hboth.2

theorem taken_step (hs : Taken s) (he : e ≠ .start) (h : step s e = some t) : Taken t := by
  obtain ⟨haccounted, htaken, hinit, hjoin⟩ := hs
  have haccounted' := accounted_step haccounted h
  cases e with
  | caller =>
    obtain ⟨hthread, hstarts, hinit', -, hjoin', -⟩ := caller_frame h
    rw [← hthread, ← hstarts] at htaken
    refine ⟨haccounted', htaken, hinit', fun hc => ?_⟩
    have hdetaching := (hjoin' hc).2
    rw [← hthread] at hdetaching
    rcases htaken with hf | ⟨hone, -⟩
    · rw [hdetaching] at hf
      exact absurd hf (by simp)
    · rw [hdetaching] at hone
      exact absurd hone (by simp [Thread.taken])
  | thread =>
    obtain ⟨hcaller, hstarts, -, hle, hnot⟩ := thread_frame h
    rw [← hcaller] at hinit hjoin
    obtain ⟨hone, hstart⟩ := htaken.resolve_left hnot
    refine ⟨haccounted', Or.inr ⟨?_, hstarts.trans hstart⟩, hinit, hjoin⟩
    have := haccounted'.started
    omega
  | start => exact absurd rfl he

theorem taken_run {es : List Event} (hs : Taken s) (hes : Event.start ∉ es)
    (hrun : exec step s es = some t) : Taken t := by
  induction es generalizing s with
  | nil =>
    obtain rfl : s = t := Option.some.inj hrun
    exact hs
  | cons e es ih =>
    obtain ⟨m, hm, hrest⟩ := (exec_cons_eq_some step).mp hrun
    rw [List.mem_cons, not_or] at hes
    obtain ⟨hne, hes⟩ := hes
    exact ih (taken_step hs (Ne.symm hne) hm) hes hrest

/-- With the only `Start` taken, the post that `uninit` gets is the farewell. -/
theorem Taken.returned (hs : Taken s) (hc : s.caller = .returned) : s.thread = .finished := by
  rcases hs.taken with hf | ⟨hone, hstart⟩
  · exact hf
  · have hposts := hs.accounted.posts
    rw [hone, hstart, hc] at hposts
    cases ht : s.thread with
    | finished => rfl
    | _ =>
      rw [ht] at hposts
      simp only [Caller.taken, Thread.posted] at hposts
      omega

theorem canReturn_step (he : e ≠ .start) (h : step s e = some t) (ht : CanReturn t) :
    CanReturn s := by
  obtain ⟨es, u, hes, hrun, hc⟩ := ht
  refine ⟨e :: es, u, ?_, ?_, hc⟩
  · rw [List.mem_cons, not_or]
    exact ⟨Ne.symm he, hes⟩
  · exact (exec_cons_eq_some step).mpr ⟨t, h, hrun⟩

/-- `uninit` waits for the farewell of a thread that is told to break off. -/
theorem Taken.canReturn_waiting (hs : Taken s) (hc : s.caller = .waiting) : CanReturn s := by
  have hfinished : ∀ u, Taken u → u.caller = .waiting → u.thread = .finished → CanReturn u := by
    intro u hu hc hf
    have hposts := hu.accounted.posts
    have hstarted := hu.accounted.started
    rw [hc, hf] at hposts
    rw [hf] at hstarted
    simp only [Caller.taken, Thread.taken, Thread.posted] at hposts hstarted
    have hpos : 0 < u.m_semIspEventthread := by omega
    have h : step u .caller = some { u with
        m_semIspEventthread := u.m_semIspEventthread - 1, caller := .returned } := by
      simp [step, callerStep, hc, hpos]
    exact canReturn_step (by simp) h ⟨[], _, by simp, rfl, rfl⟩
  have hposting : ∀ u, Taken u → u.caller = .waiting → u.thread = .posting → CanReturn u := by
    intro u hu hc hp
    have h : step u .thread = some { u with
        m_semIspEventthread := u.m_semIspEventthread + 1, thread := .finished } := by
      simp [step, ispEventThread, hp]
    exact canReturn_step (by simp) h (hfinished _ (taken_step hu (by simp) h) hc rfl)
  have htesting : ∀ u, Taken u → u.caller = .waiting → u.thread = .testing → CanReturn u := by
    intro u hu hc ht
    have h : step u .thread = some { u with thread := .posting } := by
      simp [step, ispEventThread, ht, hu.accounted.told hc]
    exact canReturn_step (by simp) h (hposting _ (taken_step hu (by simp) h) hc rfl)
  rcases hs.taken with hf | ⟨hone, -⟩
  · exact hfinished s hs hc hf
  · cases ht : s.thread with
    | detaching =>
      rw [ht] at hone
      exact absurd hone (by simp [Thread.taken])
    | waiting =>
      rw [ht] at hone
      exact absurd hone (by simp [Thread.taken])
    | testing => exact htesting s hs hc ht
    | waitIrq =>
      have h : step s .thread = some { s with thread := .testing } := by
        simp [step, ispEventThread, ht]
      exact canReturn_step (by simp) h (htesting _ (taken_step hs (by simp) h) hc rfl)
    | posting => exact hposting s hs hc ht
    | finished => exact hfinished s hs hc ht

theorem Taken.canReturn (hs : Taken s) : CanReturn s := by
  have hjoined : ∀ u, Taken u → u.caller = .joined → CanReturn u := by
    intro u hu hc
    have h : step u .caller = some { u with m_bBreak := true, caller := .waiting } := by
      simp [step, callerStep, hc]
    exact canReturn_step (by simp) h ((taken_step hu (by simp) h).canReturn_waiting rfl)
  cases hc : s.caller with
  | initialising => exact absurd hc hs.caller.1
  | joining => exact absurd hc hs.caller.2
  | running =>
    have hne : s.thread ≠ .detaching := by
      intro hd
      have htaken := hs.taken
      rw [hd] at htaken
      exact absurd htaken (by simp [Thread.taken])
    have h : step s .caller = some { s with caller := .joined } := by
      simp [step, callerStep, hc, hne]
    exact canReturn_step (by simp) h (hjoined _ (taken_step hs (by simp) h) rfl)
  | joined => exact hjoined s hs hc
  | waiting => exact hs.canReturn_waiting hc
  | returned => exact ⟨[], s, by simp, rfl, hc⟩

theorem Taken.safe (hs : Taken s) : Safe s := by
  intro es t hes hrun
  have ht := taken_run hs hes hrun
  exact ⟨ht.returned, ht.canReturn⟩

/-- A post that is left over lets `uninit` return at once. -/
theorem rush (hc : s.caller = .running) (hne : s.thread ≠ .detaching)
    (hpos : 0 < s.m_semIspEventthread) :
    exec step s [.caller, .caller, .caller] = some { s with
      m_bBreak := true
      m_semIspEventthread := s.m_semIspEventthread - 1
      caller := .returned } := by
  simp [exec, step, callerStep, hc, hne, hpos]

theorem Safe.taken (hsafe : Safe s) (hs : Accounted s) (hc : s.caller = .running) :
    s.thread = .finished ∨ s.thread.taken = 1 ∧ s.starts = 1 := by
  by_cases hf : s.thread = .finished
  · exact Or.inl hf
  -- no post may be left over
  have hempty : s.thread ≠ .detaching → s.m_semIspEventthread = 0 := by
    intro hne
    by_contra hpos
    have hrun := rush hc hne (Nat.pos_of_ne_zero hpos)
    exact hf ((hsafe _ _ (by decide) hrun).1 rfl)
  have hposts := hs.posts
  have hposted : s.thread.posted = 0 := by
    cases ht : s.thread with
    | finished => exact absurd ht hf
    | _ => rfl
  rw [hc, hposted] at hposts
  simp only [Caller.taken] at hposts
  by_cases hdetaching : s.thread = .detaching
  · have h : step s .caller = some { s with caller := .joining } := by
      simp [step, callerStep, hc, hdetaching]
    have hrun : exec step s [.caller] = some { s with caller := .joining } := by
      simp [exec, h]
    obtain ⟨es, u, -, hreturns, hreturned⟩ := (hsafe _ _ (by decide) hrun).2
    have hjoin := joining_forever (accounted_step hs h) rfl hreturns
    rw [hjoin] at hreturned
    exact absurd hreturned (by simp)
  · have hzero := hempty hdetaching
    right
    cases ht : s.thread with
    | detaching => exact absurd ht hdetaching
    | finished => exact absurd ht hf
    | waiting =>
      rw [ht, hzero] at hposts
      obtain ⟨es, u, hes, hreturns, hreturned⟩ := (hsafe [] s (by simp) rfl).2
      have hfinished := (hsafe es u hes hreturns).1 hreturned
      have hu := (accounted_exec hs hreturns).posts
      have hstarts := starts_run hes hreturns
      rw [hreturned, hfinished, hstarts] at hu
      simp only [Caller.taken, Thread.taken, Thread.posted] at hposts hu
      omega
    | _ =>
      rw [ht] at hposts
      simp only [Thread.taken] at hposts
      exact ⟨rfl, by omega⟩

end Runs

end Fixed.EventThread
