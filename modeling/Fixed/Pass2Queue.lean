import Fixed.Runs
import Mathlib.Data.Finset.Card
import Mathlib.Data.List.Nodup
import Mathlib.Tactic.Common

/-!
The buffer queue of pass 2 in `isp_function.cpp`, for one command queue and one DMA
channel. A deque tests under the lock that the queue is not empty, waits for the MDP
without it, and takes the lock again to hand out and pop the first buffer, which stays
if the MDP is not ready. In whatever order any number of threads do this, buffers are
popped in the order they were enqueued in, and one handed out too early is the next to
be handed out. That the queue is not empty any more is not tested again: `k` threads
that pass the test together need `k` buffers.
-/
namespace Fixed.Pass2Queue

open Runs

inductive Status
  | ISP_BUF_EMPTY
  | ISP_BUF_FILLED
deriving DecidableEq

/-- `stISP_BUF_INFO`, with the fields that a deque leaves alone in one. -/
structure BufInfo (ρ : Type*) where
  status : Status
  jpg_size : ℕ
  fields : ρ

inductive Dma
  | imgi | wrot | wdma | jpeg | venc_stream | img2o | img3o | imgo | other
deriving DecidableEq

inductive MdpQueue
  | SRC | WROT | WDMA | JPEG | VENCO | IMGXO
deriving DecidableEq

inductive Imgxo
  | IMG2O_EN | IMG3O_EN | neither
deriving DecidableEq

inductive MdpReturn
  | NO_ERROR | VSS_NOT_READY | failed
deriving DecidableEq

structure Platform where
  rt_dma : Dma
  /-- `drvScenario` is `eDrvScenario_IP`. -/
  scenarioIP : Bool

def mdpQueueIdx (p : Platform) (imgxoEnP2 : Imgxo) : Option MdpQueue :=
  match p.rt_dma with
  | .imgi => if p.scenarioIP then none else some .SRC
  | .wrot => some .WROT
  | .wdma => some .WDMA
  | .jpeg => some .JPEG
  | .venc_stream => some .VENCO
  | .img2o => if imgxoEnP2 = .IMG2O_EN then some .IMGXO else none
  | .img3o => if imgxoEnP2 = .IMG3O_EN then some .IMGXO else none
  | .imgo => some .IMGXO
  | .other => none

structure Queue (ι ρ : Type*) where
  bufInfoList : List (BufInfo ρ)
  /-- The threads that have passed the test and not yet taken a buffer. -/
  waiting : Finset ι
  /-- What each of them waits for. -/
  mdp : ι → Option MdpQueue
  /-- The first buffer of an empty queue was used. -/
  crashed : Bool

variable {ι ρ : Type*} [DecidableEq ι]

def enqueueHwBuf (s : Queue ι ρ) (bufInfo : BufInfo ρ) : Queue ι ρ :=
  { s with bufInfoList := s.bufInfoList ++ [{ bufInfo with status := .ISP_BUF_EMPTY }] }

/-- `dequeueHwBuf` up to the wait for the MDP; with an empty queue it fails. -/
def dequeue_test (p : Platform) (s : Queue ι ρ) (i : ι) (imgxoEnP2 : Imgxo) : Queue ι ρ :=
  if s.bufInfoList.isEmpty then s
  else { s with
    waiting := insert i s.waiting
    mdp := Function.update s.mdp i (mdpQueueIdx p imgxoEnP2) }

def filled (p : Platform) (front : BufInfo ρ) (getJPEGSize : ℕ) : BufInfo ρ :=
  { front with
    status := .ISP_BUF_FILLED
    jpg_size := if p.rt_dma = .jpeg then getJPEGSize else front.jpg_size }

/-- `dequeueHwBuf` from the answer of the MDP on, with the buffer it hands out. -/
def dequeue_take (p : Platform) (s : Queue ι ρ) (i : ι) (mdpRet : MdpReturn) (getJPEGSize : ℕ) :
    Option (BufInfo ρ) × Queue ι ρ :=
  let isDequeMdp := (s.mdp i).isSome
  let s := { s with waiting := s.waiting.erase i }
  if isDequeMdp ∧ mdpRet = .failed then (none, s)
  else
    match s.bufInfoList with
    | [] => (none, { s with crashed := true })
    | front :: rest =>
      let front := filled p front getJPEGSize
      if isDequeMdp ∧ mdpRet = .VSS_NOT_READY then
        (some front, { s with bufInfoList := front :: rest })
      else (some front, { s with bufInfoList := rest })

def clear (s : Queue ι ρ) : Queue ι ρ := { s with bufInfoList := [] }

inductive Event (ι ρ : Type*)
  | enque (bufInfo : BufInfo ρ)
  | test (i : ι) (imgxoEnP2 : Imgxo)
  | take (i : ι) (mdpRet : MdpReturn) (getJPEGSize : ℕ)
  | clear

def step (p : Platform) (s : Queue ι ρ) (e : Event ι ρ) : Option (Queue ι ρ) :=
  if s.crashed then none
  else
    match e with
    | .enque bufInfo => some (enqueueHwBuf s bufInfo)
    | .test i imgxoEnP2 => if i ∈ s.waiting then none else some (dequeue_test p s i imgxoEnP2)
    | .take i mdpRet getJPEGSize =>
      if i ∈ s.waiting then some (dequeue_take p s i mdpRet getJPEGSize).2 else none
    | .clear => some (clear s)

def initial : Queue ι ρ where
  bufInfoList := []
  waiting := ∅
  mdp _ := none
  crashed := false

/-- What a run has enqueued, and what it has handed out with whether it was popped, both
since the queue was last cleared. -/
structure History (ρ : Type*) where
  enqueued : List (BufInfo ρ)
  handed : List (BufInfo ρ × Bool)

def record (p : Platform) (s : Queue ι ρ) (e : Event ι ρ) (t : Queue ι ρ) (h : History ρ) :
    History ρ :=
  match e with
  | .enque bufInfo => { h with enqueued := h.enqueued ++ [bufInfo] }
  | .test _ _ => h
  | .take i mdpRet getJPEGSize =>
    match (dequeue_take p s i mdpRet getJPEGSize).1 with
    | none => h
    | some b =>
      { h with handed := h.handed ++ [(b, decide (t.bufInfoList.length < s.bufInfoList.length))] }
  | .clear => ⟨[], []⟩

def recorded (p : Platform) (x : Queue ι ρ × History ρ) (e : Event ι ρ) :
    Option (Queue ι ρ × History ρ) :=
  (step p x.1 e).map fun t => (t, record p x.1 e t x.2)

def Repeats : List (BufInfo ρ × Bool) → List (BufInfo ρ) → Prop
  | [], _ => True
  | (b, popped) :: handed, l =>
    (popped = false → ∃ next ∈ (handed.map Prod.fst ++ l).head?, next.fields = b.fields) ∧
      Repeats handed l

structure InOrder (s : Queue ι ρ) (h : History ρ) : Prop where
  order : h.enqueued.map BufInfo.fields =
    (h.handed.filter Prod.snd).map (fun b => b.1.fields) ++ s.bufInfoList.map BufInfo.fields
  filled : ∀ b ∈ h.handed, b.1.status = .ISP_BUF_FILLED
  repeats : Repeats h.handed s.bufInfoList

section Order

variable {p : Platform} {s t : Queue ι ρ} {h : History ρ}

/-- What is next in line matters only for its first buffer's fields. -/
theorem Repeats.congr {handed : List (BufInfo ρ × Bool)} {l l' : List (BufInfo ρ)}
    (h : Repeats handed l)
    (hhead : ∀ b ∈ l.head?, ∃ b' ∈ l'.head?, b'.fields = b.fields) : Repeats handed l' := by
  induction handed with
  | nil => trivial
  | cons x handed ih =>
    obtain ⟨hnext, hrest⟩ := h
    refine ⟨fun hx => ?_, ih hrest⟩
    obtain ⟨next, hmem, hfields⟩ := hnext hx
    cases handed with
    | nil =>
      obtain ⟨b', hb', heq⟩ := hhead next hmem
      exact ⟨b', hb', heq.trans hfields⟩
    | cons y handed => exact ⟨next, hmem, hfields⟩

theorem Repeats.snoc {handed : List (BufInfo ρ × Bool)} {x : BufInfo ρ × Bool}
    {l : List (BufInfo ρ)} (h : Repeats handed (x.1 :: l))
    (hx : x.2 = false → ∃ next ∈ l.head?, next.fields = x.1.fields) :
    Repeats (handed ++ [x]) l := by
  induction handed with
  | nil => exact ⟨hx, trivial⟩
  | cons y handed ih =>
    obtain ⟨hnext, hrest⟩ := h
    refine ⟨fun hy => ?_, ih hrest⟩
    obtain ⟨next, hmem, hfields⟩ := hnext hy
    have happend : (handed ++ [x]).map Prod.fst ++ l = handed.map Prod.fst ++ x.1 :: l := by simp
    rw [← happend] at hmem
    exact ⟨next, hmem, hfields⟩

theorem not_crashed {e : Event ι ρ} (h : step p s e = some t) : s.crashed = false := by
  cases hc : s.crashed with
  | false => rfl
  | true => simp [step, hc] at h

/-- What a step may be. -/
theorem step_cases {e : Event ι ρ} (h : step p s e = some t) :
    (∃ b, e = .enque b ∧ t = enqueueHwBuf s b) ∨
    (∃ i imgxo, e = .test i imgxo ∧ i ∉ s.waiting ∧ t = dequeue_test p s i imgxo) ∨
    (∃ i ret size, e = .take i ret size ∧ i ∈ s.waiting ∧ t = (dequeue_take p s i ret size).2) ∨
    (e = .clear ∧ t = clear s) := by
  have hc := not_crashed h
  cases e with
  | enque b =>
    simp only [step, hc, Bool.false_eq_true, if_false, Option.some.injEq] at h
    exact Or.inl ⟨b, rfl, h.symm⟩
  | test i imgxo =>
    simp only [step, hc, Bool.false_eq_true, if_false, Option.ite_none_left_eq_some,
      Option.some.injEq] at h
    exact Or.inr (Or.inl ⟨i, imgxo, rfl, h.1, h.2.symm⟩)
  | take i ret size =>
    simp only [step, hc, Bool.false_eq_true, if_false, Option.ite_none_right_eq_some,
      Option.some.injEq] at h
    exact Or.inr (Or.inr (Or.inl ⟨i, ret, size, rfl, h.1, h.2.symm⟩))
  | clear =>
    simp only [step, hc, Bool.false_eq_true, if_false, Option.some.injEq] at h
    exact Or.inr (Or.inr (Or.inr ⟨rfl, h.symm⟩))

/-- How taking a buffer ends. -/
theorem take_cases (s : Queue ι ρ) (i : ι) (ret : MdpReturn) (size : ℕ) :
    let u := dequeue_take p s i ret size
    u = (none, { s with waiting := s.waiting.erase i }) ∨
    (s.bufInfoList = [] ∧ u = (none, { s with waiting := s.waiting.erase i, crashed := true })) ∨
    ∃ front rest, s.bufInfoList = front :: rest ∧
      (u = (some (filled p front size), { s with
          waiting := s.waiting.erase i
          bufInfoList := filled p front size :: rest }) ∨
        u = (some (filled p front size), { s with
          waiting := s.waiting.erase i
          bufInfoList := rest })) := by
  intro u
  simp only [u, dequeue_take]
  split
  · exact Or.inl rfl
  · cases hlist : s.bufInfoList with
    | nil => exact Or.inr (Or.inl ⟨rfl, rfl⟩)
    | cons front rest =>
      refine Or.inr (Or.inr ⟨front, rest, rfl, ?_⟩)
      dsimp only
      split
      · exact Or.inl rfl
      · exact Or.inr rfl

omit [DecidableEq ι] in
/-- The first buffer is handed out; when it stays, it is the next one. -/
theorem InOrder.hand {front b : BufInfo ρ} {rest : List (BufInfo ρ)} {popped : Bool}
    (hs : InOrder s h) (hlist : s.bufInfoList = front :: rest) (hb : b.fields = front.fields)
    (hstatus : b.status = .ISP_BUF_FILLED)
    (ht : t.bufInfoList = if popped then rest else b :: rest) :
    InOrder t { h with handed := h.handed ++ [(b, popped)] } := by
  obtain ⟨horder, hfilled, hrepeats⟩ := hs
  rw [hlist] at horder hrepeats
  refine ⟨?_, ?_, ?_⟩
  · rw [horder, ht, List.filter_append]
    cases popped <;> simp [hb]
  · intro c hc
    rcases List.mem_append.mp hc with hc | hc
    · exact hfilled c hc
    · rw [List.mem_singleton.mp hc]
      exact hstatus
  · rw [ht]
    apply Repeats.snoc
    · apply hrepeats.congr
      intro c hc
      obtain rfl : front = c := Option.some.inj hc
      exact ⟨b, rfl, hb⟩
    · intro hpopped
      have hfalse : popped = false := hpopped
      exact ⟨b, by simp [hfalse], rfl⟩

theorem inOrder_take (hs : InOrder s h) (i : ι) (ret : MdpReturn) (size : ℕ) :
    InOrder (dequeue_take p s i ret size).2
      (record p s (.take i ret size) (dequeue_take p s i ret size).2 h) := by
  rcases take_cases (p := p) s i ret size with heq | ⟨-, heq⟩ | ⟨front, rest, hlist, heq | heq⟩
  · simp only [record, heq]
    exact ⟨hs.order, hs.filled, hs.repeats⟩
  · simp only [record, heq]
    exact ⟨hs.order, hs.filled, hs.repeats⟩
  · simp only [record, heq, hlist, List.length_cons, lt_irrefl, decide_false]
    exact hs.hand hlist rfl rfl rfl
  · simp only [record, heq, hlist, List.length_cons, Nat.lt_succ_self, decide_true]
    exact hs.hand hlist rfl rfl rfl

theorem inOrder_step {e : Event ι ρ} (hs : InOrder s h) (hstep : step p s e = some t) :
    InOrder t (record p s e t h) := by
  rcases step_cases hstep with ⟨b, rfl, rfl⟩ | ⟨i, imgxo, rfl, -, rfl⟩ |
    ⟨i, ret, size, rfl, -, rfl⟩ | ⟨rfl, rfl⟩
  · obtain ⟨horder, hfilled, hrepeats⟩ := hs
    refine ⟨?_, hfilled, ?_⟩
    · simp only [record, enqueueHwBuf, List.map_append, horder, List.append_assoc]
      rfl
    · apply hrepeats.congr
      intro front hfront
      obtain ⟨rest, hlist⟩ := List.head?_eq_some_iff.mp hfront
      exact ⟨front, by simp [enqueueHwBuf, hlist], rfl⟩
  · unfold dequeue_test
    split
    · exact ⟨hs.order, hs.filled, hs.repeats⟩
    · exact ⟨hs.order, hs.filled, hs.repeats⟩
  · exact inOrder_take hs i ret size
  · exact ⟨rfl, fun b hb => absurd hb List.not_mem_nil, trivial⟩

/-- In every run, whatever the threads and the MDP do, what was enqueued since the queue
was last cleared is what was popped, in this order, followed by the queue; and a buffer
that was handed out before the MDP was ready is the next to be handed out. -/
theorem popped_in_order {es : List (Event ι ρ)}
    (hrun : exec (recorded p) (initial, ⟨[], []⟩) es = some (t, h)) : InOrder t h := by
  have hinitial : InOrder (initial : Queue ι ρ) (⟨[], []⟩ : History ρ) :=
    ⟨rfl, fun _ hb => absurd hb List.not_mem_nil, trivial⟩
  refine exec_invariant (recorded p) (I := fun x => InOrder x.1 x.2) ?_ hinitial hrun
  intro x e y hx hy
  obtain ⟨u, hu, rfl⟩ := Option.map_eq_some_iff.mp hy
  exact inOrder_step hx hu

end Order

def notReady : List (Event ℕ ℕ) :=
  [.enque ⟨.ISP_BUF_EMPTY, 0, 7⟩, .enque ⟨.ISP_BUF_EMPTY, 0, 8⟩, .test 0 .neither,
    .test 1 .neither, .take 1 .VSS_NOT_READY 0, .take 0 .NO_ERROR 0]

theorem popped_in_order_notReady : ∃ t h,
    exec (recorded ⟨.wrot, false⟩) (initial, ⟨[], []⟩) notReady = some (t, h) ∧
    h.handed = [(⟨.ISP_BUF_FILLED, 0, 7⟩, false), (⟨.ISP_BUF_FILLED, 0, 7⟩, true)] ∧
    InOrder t h :=
  ⟨_, _, rfl, rfl, @popped_in_order ℕ ℕ _ ⟨.wrot, false⟩ _ _ notReady rfl⟩

section Enough

variable {p : Platform} {s t : Queue ι ρ}

/-- After a crash nothing runs any more. -/
theorem exec_crashed {es : List (Event ι ρ)} (hs : s.crashed = true)
    (h : exec (step p) s es = some t) : t.crashed = true := by
  cases es with
  | nil =>
    obtain rfl : s = t := Option.some.inj h
    exact hs
  | cons e es =>
    obtain ⟨m, hm, -⟩ := (exec_cons_eq_some (step p)).mp h
    rw [not_crashed hm] at hs
    exact absurd hs Bool.false_ne_true

end Enough

end Fixed.Pass2Queue
