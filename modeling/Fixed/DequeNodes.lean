import Fixed.Runs
import Mathlib.Data.Finset.Card
import Mathlib.Data.Finset.Range
import Mathlib.Data.List.Nodup
import Mathlib.Data.List.Range
import Mathlib.Logic.Function.Basic
import Mathlib.Tactic.Common

/-!
The node table of `isp_function.cpp` that the headers of dequeued buffers point into,
for one of the DMA channels of pass 1 that are read out. A deque takes a free node,
copies what it hands out into it, and the enqueue of that buffer frees the node again. A
header stays right, that is points at a node of its own that holds what was handed
out, through all runs whose deques hand out one buffer at a time and whose enqueues
succeed, and through no others. A deque that hands out nothing keeps its node for
good. The kernel driver is outside this repository: it hands out buffers with an
address, none of which the client still holds.
-/
namespace Fixed.DequeNodes

open Runs

/-- `stISP_BUF_INFO`, with the fields that nothing here depends on in one. -/
structure BufInfo (ρ : Type*) where
  base_pAddr : ℕ
  base_vAddr : ℕ
  fields : ρ
  /-- The number of the node, when it is not null. -/
  header_info : Option ℕ

structure Node (ρ : Type*) where
  mOccupied : Bool
  mInfo : BufInfo ρ

structure Frame (ρ : Type*) where
  base_pAddr : ℕ
  base_vAddr : ℕ
  fields : ρ

structure Channel (ρ : Type*) where
  mN : ℕ → Node ρ
  P1DeQCnt : ℤ
  /-- The buffers that were handed out and not yet enqueued again. -/
  held : List (BufInfo ρ)

structure Platform where
  ISP_BUF_INFO_NODE_MAX_CNT : ℕ
  ISP_RT_BUF_SIZE : ℕ
  ISP_RT_CQ0C_BUF_SIZE : ℕ

structure Buffer where
  base_pAddr : ℕ
  base_vAddr : ℕ

/-- The answers to `ISP_RT_BUF_CTRL_GET_SIZE`, when it succeeds, and to
`ISP_RT_BUF_CTRL_ENQUE`. -/
structure EnqueAnswers where
  size : Option ℕ
  enque : Bool

variable {ρ : Type*}

section Model

variable (p : Platform)

def Channel.find (s : Channel ρ) (q : Node ρ → Bool) : Option ℕ :=
  (List.range p.ISP_BUF_INFO_NODE_MAX_CNT).find? fun i => q (s.mN i)

def Channel.setNode (s : Channel ρ) (i : ℕ) (node : Node ρ) : Channel ρ :=
  { s with mN := Function.update s.mN i node }

def saveDeqBufInfo (s : Channel ρ) : Option ℕ × Channel ρ :=
  match s.find p fun node => !node.mOccupied with
  | some i => (some i, s.setNode i { s.mN i with mOccupied := true })
  | none => (none, s)

/-- The loop over the buffers that a deque has answered; `prev` is the header that the
local copy has when a buffer is begun. -/
def fill (header : Option ℕ) (s : Channel ρ) (prev : Option ℕ) : List (Frame ρ) → Channel ρ
  | [] => s
  | frame :: frames =>
    let bufInfo : BufInfo ρ := ⟨frame.base_pAddr, frame.base_vAddr, frame.fields, prev⟩
    let s := match header with
      | some i => s.setNode i { s.mN i with mInfo := bufInfo }
      | none => s
    fill header { s with held := s.held ++ [{ bufInfo with header_info := header }] } header frames

/-- Nothing is answered when `ISP_RT_BUF_CTRL_DEQUE` fails. -/
def dequeueHwBuf (s : Channel ρ) (deque_buf : Option (List (Frame ρ))) : Channel ρ :=
  let (bufHeaderInfo, s) := saveDeqBufInfo p s
  match deque_buf with
  | none => s
  | some frames =>
    let s := { s with P1DeQCnt := s.P1DeQCnt - 1 }
    if p.ISP_RT_BUF_SIZE < frames.length then s else fill bufHeaderInfo s none frames

def Channel.free (s : Channel ρ) (base_pAddr : ℕ) : Channel ρ :=
  match s.find p fun node => node.mInfo.base_pAddr = base_pAddr with
  | some i => s.setNode i ⟨false, { (s.mN i).mInfo with base_pAddr := 0 }⟩
  | none => s

def returnDeqBufInfo (s : Channel ρ) (bufInfo : Buffer) (next : Option Buffer) : Channel ρ :=
  match next with
  | none => s.free p bufInfo.base_pAddr
  | some next =>
    match s.find p fun node => node.mInfo.base_vAddr = next.base_vAddr with
    | some _ => s.free p next.base_pAddr
    | none => s

def enqueueHwBuf (s : Channel ρ) (bufInfo : Buffer) (next : Option Buffer) (a : EnqueAnswers) :
    ℤ × Channel ρ :=
  let s := returnDeqBufInfo p s bufInfo next
  match a.size with
  | none => (-1, s)
  | some size =>
    if size = p.ISP_RT_CQ0C_BUF_SIZE then (-1, s)
    else if a.enque then (0, { s with P1DeQCnt := s.P1DeQCnt + 1 })
    else (-1, s)

inductive Event (ρ : Type*)
  | deque (deque_buf : Option (List (Frame ρ)))
  | enque (bufInfo : Buffer) (next : Option Buffer) (a : EnqueAnswers)

def given (bufInfo : Buffer) (next : Option Buffer) : Buffer := next.getD bufInfo

def handedOut : Option (List (Frame ρ)) → List (Frame ρ)
  | none => []
  | some frames => if p.ISP_RT_BUF_SIZE < frames.length then [] else frames

def Fresh (s : Channel ρ) (frames : List (Frame ρ)) : Prop :=
  (frames.map Frame.base_pAddr).Nodup ∧
    ∀ f ∈ frames, f.base_pAddr ≠ 0 ∧ ∀ b ∈ s.held, b.base_pAddr ≠ f.base_pAddr

instance (s : Channel ρ) (frames : List (Frame ρ)) : Decidable (Fresh s frames) :=
  inferInstanceAs (Decidable (_ ∧ _))

def Known (s : Channel ρ) (b : Buffer) : Prop :=
  b.base_pAddr ≠ 0 ∧ ∀ h ∈ s.held, h.base_pAddr = b.base_pAddr → h.base_vAddr = b.base_vAddr

instance (s : Channel ρ) (b : Buffer) : Decidable (Known s b) :=
  inferInstanceAs (Decidable (_ ∧ _))

/-- An enqueue that fails leaves the buffer with the client. -/
def step (s : Channel ρ) : Event ρ → Option (Channel ρ)
  | .deque deque_buf =>
    if Fresh s (handedOut p deque_buf) then some (dequeueHwBuf p s deque_buf) else none
  | .enque bufInfo next a =>
    if Known s (given bufInfo next) then
      let (ret, t) := enqueueHwBuf p s bufInfo next a
      some (if ret = 0 then { t with
        held := t.held.filter fun h => h.base_pAddr ≠ (given bufInfo next).base_pAddr } else t)
    else none

def initial [Inhabited ρ] : Channel ρ where
  mN _ := ⟨false, ⟨0, 0, default, none⟩⟩
  P1DeQCnt := 0
  held := []

def Right (s : Channel ρ) (b : BufInfo ρ) : Prop :=
  ∀ i, b.header_info = some i → i < p.ISP_BUF_INFO_NODE_MAX_CNT ∧
    (s.mN i).mOccupied = true ∧ (s.mN i).mInfo.base_pAddr = b.base_pAddr ∧
    (s.mN i).mInfo.base_vAddr = b.base_vAddr ∧ (s.mN i).mInfo.fields = b.fields

def HeadersRight (s : Channel ρ) : Prop := ∀ b ∈ s.held, Right p s b

def Accepted (a : EnqueAnswers) : Prop :=
  (∃ size, a.size = some size ∧ size ≠ p.ISP_RT_CQ0C_BUF_SIZE) ∧ a.enque = true

/-- While there is a free node a deque hands out one buffer at a time, and a buffer
that has a header is enqueued with success. -/
def OneByOne (s : Channel ρ) (e : Event ρ) (_ : Channel ρ) : Prop :=
  match e with
  | .deque deque_buf =>
    (∃ i < p.ISP_BUF_INFO_NODE_MAX_CNT, (s.mN i).mOccupied = false) →
      (handedOut p deque_buf).length ≤ 1
  | .enque bufInfo next a =>
    (∃ h ∈ s.held, h.base_pAddr = (given bufInfo next).base_pAddr ∧ h.header_info ≠ none) →
      Accepted p a

/-- The nodes with an address are those of the buffers the client holds. -/
structure Tracked (s : Channel ρ) : Prop where
  right : HeadersRight p s
  distinct : (s.held.map BufInfo.base_pAddr).Nodup
  nonzero : ∀ b ∈ s.held, b.base_pAddr ≠ 0
  free : ∀ i < p.ISP_BUF_INFO_NODE_MAX_CNT,
    (s.mN i).mOccupied = false → (s.mN i).mInfo.base_pAddr = 0
  owned : ∀ i < p.ISP_BUF_INFO_NODE_MAX_CNT, (s.mN i).mInfo.base_pAddr ≠ 0 →
    ∃ b ∈ s.held, b.header_info = some i

end Model

section Find

variable {p : Platform} {s : Channel ρ} {q : Node ρ → Bool} {i : ℕ}

theorem find_eq_some (h : s.find p q = some i) :
    i < p.ISP_BUF_INFO_NODE_MAX_CNT ∧ q (s.mN i) = true :=
  ⟨List.mem_range.mp (List.mem_of_find?_eq_some h), List.find?_some (p := fun j => q (s.mN j)) h⟩

theorem find_eq_none (h : s.find p q = none) :
    ∀ j < p.ISP_BUF_INFO_NODE_MAX_CNT, q (s.mN j) = false := by
  intro j hj
  simpa using List.find?_eq_none.mp h j (List.mem_range.mpr hj)

/-- The only node with a property is found. -/
theorem find_of_unique (hi : i < p.ISP_BUF_INFO_NODE_MAX_CNT) (hq : q (s.mN i) = true)
    (honly : ∀ j < p.ISP_BUF_INFO_NODE_MAX_CNT, q (s.mN j) = true → j = i) :
    s.find p q = some i := by
  cases hfind : s.find p q with
  | none =>
    rw [find_eq_none hfind i hi] at hq
    exact absurd hq (by simp)
  | some j =>
    obtain ⟨hj, hqj⟩ := find_eq_some hfind
    rw [honly j hj hqj]

end Find

section Fill

variable {s : Channel ρ} {prev : Option ℕ} {i : ℕ}

def Frame.info (f : Frame ρ) (header : Option ℕ) : BufInfo ρ :=
  ⟨f.base_pAddr, f.base_vAddr, f.fields, header⟩

theorem fill_held (header : Option ℕ) (frames : List (Frame ρ)) :
    (fill header s prev frames).held = s.held ++ frames.map (Frame.info · header) := by
  induction frames generalizing s prev with
  | nil => exact (List.append_nil _).symm
  | cons frame frames ih =>
    cases header with
    | none => exact ih.trans (List.append_assoc ..)
    | some i => exact ih.trans (List.append_assoc ..)

theorem fill_none_nodes (frames : List (Frame ρ)) : (fill none s prev frames).mN = s.mN := by
  induction frames generalizing s prev with
  | nil => rfl
  | cons frame frames ih => exact ih

/-- The node holds the last buffer. -/
theorem fill_last (frames : List (Frame ρ)) (f : Frame ρ) :
    ((fill (some i) s prev (frames ++ [f])).mN i).mInfo.base_pAddr = f.base_pAddr := by
  induction frames generalizing s prev with
  | nil => simp [fill, Channel.setNode]
  | cons frame frames ih => exact ih

theorem fill_congr {t : Channel ρ} (header : Option ℕ) (frames : List (Frame ρ))
    (h : s.mN = t.mN) : (fill header s prev frames).mN = (fill header t prev frames).mN := by
  induction frames generalizing s t prev with
  | nil => exact h
  | cons frame frames ih =>
    cases header with
    | none => exact ih h
    | some i =>
      apply ih
      simp only [Channel.setNode, h]

end Fill

section Law

variable {p : Platform} {s t : Channel ρ}

/-- The nodes behind a deque, and what the client then holds. -/
theorem dequeue_eq (deque_buf : Option (List (Frame ρ))) :
    (dequeueHwBuf p s deque_buf).mN =
        (fill (saveDeqBufInfo p s).1 (saveDeqBufInfo p s).2 none (handedOut p deque_buf)).mN ∧
      (dequeueHwBuf p s deque_buf).held =
        s.held ++ (handedOut p deque_buf).map (Frame.info · (saveDeqBufInfo p s).1) := by
  have hheld : (saveDeqBufInfo p s).2.held = s.held := by
    unfold saveDeqBufInfo
    split <;> rfl
  cases deque_buf with
  | none => exact ⟨rfl, hheld.trans (List.append_nil _).symm⟩
  | some frames =>
    unfold dequeueHwBuf handedOut
    dsimp only
    split
    · exact ⟨rfl, hheld.trans (List.append_nil _).symm⟩
    · refine ⟨fill_congr _ _ rfl, (fill_held _ _).trans ?_⟩
      exact congrArg (· ++ _) hheld

/-- What a node takes, or that there is none to take. -/
theorem save_cases : (∃ i < p.ISP_BUF_INFO_NODE_MAX_CNT, (s.mN i).mOccupied = false ∧
      saveDeqBufInfo p s = (some i, s.setNode i { s.mN i with mOccupied := true })) ∨
    (∀ i < p.ISP_BUF_INFO_NODE_MAX_CNT, (s.mN i).mOccupied = true) ∧
      saveDeqBufInfo p s = (none, s) := by
  unfold saveDeqBufInfo
  cases hfind : s.find p fun node => !node.mOccupied with
  | some i =>
    obtain ⟨hi, hfree⟩ := find_eq_some hfind
    exact Or.inl ⟨i, hi, by simpa using hfree, rfl⟩
  | none =>
    refine Or.inr ⟨fun i hi => ?_, rfl⟩
    simpa using find_eq_none hfind i hi

theorem Tracked.congr (hs : Tracked p s) (hnodes : t.mN = s.mN) (hheld : t.held = s.held) :
    Tracked p t := by
  obtain ⟨hright, hdistinct, hnonzero, hfree, howned⟩ := hs
  constructor
  · intro b hb
    rw [hheld] at hb
    unfold Right
    rw [hnodes]
    exact hright b hb
  · rwa [hheld]
  · rwa [hheld]
  · rwa [hnodes]
  · rwa [hnodes, hheld]

/-- More buffers in hand. -/
theorem nodup_append_info (hs : Tracked p s) {frames : List (Frame ρ)} (hfresh : Fresh s frames)
    (header : Option ℕ) :
    ((s.held ++ frames.map (Frame.info · header)).map BufInfo.base_pAddr).Nodup ∧
      ∀ b ∈ s.held ++ frames.map (Frame.info · header), b.base_pAddr ≠ 0 := by
  obtain ⟨hnodup, hnew⟩ := hfresh
  have hmap : (frames.map (Frame.info · header)).map BufInfo.base_pAddr =
      frames.map Frame.base_pAddr := by
    rw [List.map_map]
    rfl
  constructor
  · rw [List.map_append, hmap, List.nodup_append]
    refine ⟨hs.distinct, hnodup, ?_⟩
    intro a ha b hb heq
    obtain ⟨h, hh, rfl⟩ := List.mem_map.mp ha
    obtain ⟨f, hf, rfl⟩ := List.mem_map.mp hb
    exact (hnew f hf).2 h hh heq
  · intro b hb
    rcases List.mem_append.mp hb with hb | hb
    · exact hs.nonzero b hb
    · obtain ⟨f, hf, rfl⟩ := List.mem_map.mp hb
      exact (hnew f hf).1

/-- A deque without a node. -/
theorem tracked_no_node (hs : Tracked p s) {frames : List (Frame ρ)} (hfresh : Fresh s frames)
    (hnodes : t.mN = s.mN) (hheld : t.held = s.held ++ frames.map (Frame.info · none)) :
    Tracked p t := by
  obtain ⟨hdistinct, hnonzero⟩ := nodup_append_info hs hfresh none
  constructor
  · intro b hb
    rw [hheld] at hb
    rcases List.mem_append.mp hb with hb | hb
    · unfold Right
      rw [hnodes]
      exact hs.right b hb
    · obtain ⟨f, -, rfl⟩ := List.mem_map.mp hb
      intro i hi
      exact absurd hi (by simp [Frame.info])
  · rwa [hheld]
  · rwa [hheld]
  · rw [hnodes]
    exact hs.free
  · rw [hnodes, hheld]
    intro i hi hp
    obtain ⟨b, hb, hheader⟩ := hs.owned i hi hp
    exact ⟨b, List.mem_append_left _ hb, hheader⟩

/-- A deque that takes a node and hands out nothing. -/
theorem tracked_fruitless (hs : Tracked p s) {i : ℕ} (hi : i < p.ISP_BUF_INFO_NODE_MAX_CNT)
    (hfree : (s.mN i).mOccupied = false)
    (hnodes : t.mN = Function.update s.mN i { s.mN i with mOccupied := true })
    (hheld : t.held = s.held) : Tracked p t := by
  have hother : ∀ j, j ≠ i → t.mN j = s.mN j := by
    intro j hj
    rw [hnodes, Function.update_of_ne hj]
  have hself : t.mN i = { s.mN i with mOccupied := true } := by rw [hnodes, Function.update_self]
  constructor
  · intro b hb j hj
    rw [hheld] at hb
    have hright := hs.right b hb j hj
    have hne : j ≠ i := by
      rintro rfl
      rw [hfree] at hright
      exact absurd hright.2.1 (by simp)
    rwa [hother j hne]
  · rw [hheld]
    exact hs.distinct
  · rw [hheld]
    exact hs.nonzero
  · intro j hj hocc
    by_cases hne : j = i
    · rw [hne, hself] at hocc
      exact absurd hocc (by simp)
    · rw [hother j hne] at hocc ⊢
      exact hs.free j hj hocc
  · intro j hj hp
    rw [hheld]
    by_cases hne : j = i
    · rw [hne, hself] at hp
      exact absurd (hs.free i hi hfree) hp
    · rw [hother j hne] at hp
      exact hs.owned j hj hp

/-- A deque that takes a node and hands out one buffer. -/
theorem tracked_single (hs : Tracked p s) {i : ℕ} {f : Frame ρ}
    (hi : i < p.ISP_BUF_INFO_NODE_MAX_CNT) (hfree : (s.mN i).mOccupied = false)
    (hfresh : Fresh s [f]) (hnodes : t.mN = Function.update s.mN i ⟨true, f.info none⟩)
    (hheld : t.held = s.held ++ [f.info (some i)]) : Tracked p t := by
  obtain ⟨hdistinct, hnonzero⟩ := nodup_append_info hs hfresh (some i)
  have hother : ∀ j, j ≠ i → t.mN j = s.mN j := by
    intro j hj
    rw [hnodes, Function.update_of_ne hj]
  have hself : t.mN i = ⟨true, f.info none⟩ := by rw [hnodes, Function.update_self]
  constructor
  · intro b hb j hj
    rw [hheld] at hb
    rcases List.mem_append.mp hb with hb | hb
    · have hright := hs.right b hb j hj
      have hne : j ≠ i := by
        rintro rfl
        rw [hfree] at hright
        exact absurd hright.2.1 (by simp)
      rwa [hother j hne]
    · obtain rfl := List.mem_singleton.mp hb
      obtain rfl : i = j := Option.some.inj hj
      rw [hself]
      exact ⟨hi, rfl, rfl, rfl, rfl⟩
  · rwa [hheld]
  · rwa [hheld]
  · intro j hj hocc
    by_cases hne : j = i
    · rw [hne, hself] at hocc
      exact absurd hocc (by simp)
    · rw [hother j hne] at hocc ⊢
      exact hs.free j hj hocc
  · intro j hj hp
    rw [hheld]
    by_cases hne : j = i
    · exact ⟨_, List.mem_append_right _ (List.mem_singleton.mpr rfl), by rw [hne]; rfl⟩
    · rw [hother j hne] at hp
      obtain ⟨b, hb, hheader⟩ := hs.owned j hj hp
      exact ⟨b, List.mem_append_left _ hb, hheader⟩

/-- A buffer in hand is the only one with its address. -/
theorem Tracked.eq_of_address (hs : Tracked p s) {b b' : BufInfo ρ} (hb : b ∈ s.held)
    (hb' : b' ∈ s.held) (heq : b.base_pAddr = b'.base_pAddr) : b = b' :=
  List.inj_on_of_nodup_map hs.distinct hb hb' heq

/-- Only the node of a buffer in hand has its address. -/
theorem Tracked.node_unique (hs : Tracked p s) {b : BufInfo ρ} (hb : b ∈ s.held) {j : ℕ}
    (hj : j < p.ISP_BUF_INFO_NODE_MAX_CNT) (heq : (s.mN j).mInfo.base_pAddr = b.base_pAddr) :
    b.header_info = some j := by
  obtain ⟨b', hb', hheader⟩ := hs.owned j hj (heq ▸ hs.nonzero b hb)
  have haddress := (hs.right b' hb' j hheader).2.2.1
  rwa [hs.eq_of_address hb hb' (heq.symm.trans haddress)]

/-- The enqueue of a buffer frees its node. -/
theorem return_of_header (hs : Tracked p s) {bufInfo : Buffer} {next : Option Buffer}
    (hknown : Known s (given bufInfo next)) {b : BufInfo ρ} (hb : b ∈ s.held)
    (haddress : b.base_pAddr = (given bufInfo next).base_pAddr) {i : ℕ}
    (hheader : b.header_info = some i) :
    returnDeqBufInfo p s bufInfo next =
      s.setNode i ⟨false, { (s.mN i).mInfo with base_pAddr := 0 }⟩ := by
  obtain ⟨hi, -, hp, hv, -⟩ := hs.right b hb i hheader
  have hfind : s.find p (fun node => node.mInfo.base_pAddr = (given bufInfo next).base_pAddr) =
      some i := by
    apply find_of_unique hi
    · exact decide_eq_true (hp.trans haddress)
    · intro j hj hq
      have hj' := hs.node_unique hb hj ((of_decide_eq_true hq).trans haddress.symm)
      exact Option.some.inj (hj'.symm.trans hheader)
  cases next with
  | none =>
    simp only [returnDeqBufInfo, Channel.free]
    rw [show bufInfo.base_pAddr = (given bufInfo none).base_pAddr from rfl, hfind]
  | some b' =>
    have hvirtual : ∃ j, s.find p (fun node => node.mInfo.base_vAddr = b'.base_vAddr) = some j := by
      cases hnone : s.find p (fun node => node.mInfo.base_vAddr = b'.base_vAddr) with
      | some j => exact ⟨j, rfl⟩
      | none =>
        have hmiss := of_decide_eq_false (find_eq_none hnone i hi)
        exact absurd (hv.trans (hknown.2 b hb haddress)) hmiss
    obtain ⟨j, hj⟩ := hvirtual
    simp only [returnDeqBufInfo, hj, Channel.free]
    rw [show b'.base_pAddr = (given bufInfo (some b')).base_pAddr from rfl, hfind]

/-- The enqueue of a buffer that has no header frees nothing. -/
theorem return_of_no_header (hs : Tracked p s) {bufInfo : Buffer} {next : Option Buffer}
    (hknown : Known s (given bufInfo next))
    (hnone : ∀ b ∈ s.held, b.base_pAddr = (given bufInfo next).base_pAddr → b.header_info = none) :
    returnDeqBufInfo p s bufInfo next = s := by
  have hfree : s.free p (given bufInfo next).base_pAddr = s := by
    unfold Channel.free
    cases hfind : s.find p fun node => node.mInfo.base_pAddr = (given bufInfo next).base_pAddr with
    | none => rfl
    | some i =>
      obtain ⟨hi, hq⟩ := find_eq_some hfind
      have hp : (s.mN i).mInfo.base_pAddr = (given bufInfo next).base_pAddr := of_decide_eq_true hq
      obtain ⟨b, hb, hheader⟩ := hs.owned i hi (by rw [hp]; exact hknown.1)
      have haddress := (hs.right b hb i hheader).2.2.1
      rw [hnone b hb (haddress.symm.trans hp)] at hheader
      exact absurd hheader (by simp)
  cases next with
  | none => exact hfree
  | some b' =>
    simp only [returnDeqBufInfo]
    split
    · exact hfree
    · rfl

theorem enqueue_ret {bufInfo : Buffer} {next : Option Buffer} {a : EnqueAnswers} :
    (enqueueHwBuf p s bufInfo next a).1 = 0 ↔ Accepted p a := by
  unfold enqueueHwBuf Accepted
  cases hsize : a.size with
  | none => simp
  | some size =>
    by_cases hfull : size = p.ISP_RT_CQ0C_BUF_SIZE
    · simp [hfull]
    · cases henque : a.enque <;> simp [hfull]

/-- The driver's answers leave the nodes and the buffers in hand alone. -/
theorem enqueue_nodes {bufInfo : Buffer} {next : Option Buffer} {a : EnqueAnswers} :
    (enqueueHwBuf p s bufInfo next a).2.mN = (returnDeqBufInfo p s bufInfo next).mN ∧
      (enqueueHwBuf p s bufInfo next a).2.held = (returnDeqBufInfo p s bufInfo next).held := by
  unfold enqueueHwBuf
  cases a.size with
  | none => exact ⟨rfl, rfl⟩
  | some size =>
    dsimp only
    split
    · exact ⟨rfl, rfl⟩
    · split <;> exact ⟨rfl, rfl⟩

/-- The node of a buffer is freed, and the buffer goes back. -/
theorem tracked_enqueued (hs : Tracked p s) {b : BufInfo ρ} (hb : b ∈ s.held) {i : ℕ}
    (hheader : b.header_info = some i)
    (hnodes : t.mN = Function.update s.mN i ⟨false, { (s.mN i).mInfo with base_pAddr := 0 }⟩)
    (hheld : t.held = s.held.filter fun h => h.base_pAddr ≠ b.base_pAddr) : Tracked p t := by
  have hother : ∀ j, j ≠ i → t.mN j = s.mN j := by
    intro j hj
    rw [hnodes, Function.update_of_ne hj]
  have hself : t.mN i = ⟨false, { (s.mN i).mInfo with base_pAddr := 0 }⟩ := by
    rw [hnodes, Function.update_self]
  have hmem : ∀ h, h ∈ t.held ↔ h ∈ s.held ∧ h.base_pAddr ≠ b.base_pAddr := by
    intro h
    rw [hheld, List.mem_filter, decide_eq_true_iff]
  constructor
  · intro h hh j hj
    obtain ⟨hh, hne⟩ := (hmem h).mp hh
    have hright := hs.right h hh j hj
    have hji : j ≠ i := by
      rintro rfl
      have haddress := (hs.right b hb j hheader).2.2.1
      exact hne (hright.2.2.1.symm.trans haddress)
    rwa [hother j hji]
  · rw [hheld]
    exact hs.distinct.sublist (List.filter_sublist.map _)
  · intro h hh
    exact hs.nonzero h ((hmem h).mp hh).1
  · intro j hj hocc
    by_cases hne : j = i
    · rw [hne, hself]
    · rw [hother j hne] at hocc ⊢
      exact hs.free j hj hocc
  · intro j hj hp
    by_cases hne : j = i
    · rw [hne, hself] at hp
      exact absurd rfl hp
    · rw [hother j hne] at hp
      obtain ⟨h, hh, hheader'⟩ := hs.owned j hj hp
      refine ⟨h, (hmem h).mpr ⟨hh, fun heq => hne ?_⟩, hheader'⟩
      rw [hs.eq_of_address hh hb heq, hheader] at hheader'
      exact (Option.some.inj hheader').symm

/-- Only buffers without a header go back. -/
theorem tracked_returned (hs : Tracked p s) {b : Buffer}
    (hnone : ∀ h ∈ s.held, h.base_pAddr = b.base_pAddr → h.header_info = none)
    (hnodes : t.mN = s.mN) (hheld : t.held = s.held.filter fun h => h.base_pAddr ≠ b.base_pAddr) :
    Tracked p t := by
  have hmem : ∀ h, h ∈ t.held ↔ h ∈ s.held ∧ h.base_pAddr ≠ b.base_pAddr := by
    intro h
    rw [hheld, List.mem_filter, decide_eq_true_iff]
  constructor
  · intro h hh
    unfold Right
    rw [hnodes]
    exact hs.right h ((hmem h).mp hh).1
  · rw [hheld]
    exact hs.distinct.sublist (List.filter_sublist.map _)
  · intro h hh
    exact hs.nonzero h ((hmem h).mp hh).1
  · rw [hnodes]
    exact hs.free
  · rw [hnodes]
    intro j hj hp
    obtain ⟨h, hh, hheader⟩ := hs.owned j hj hp
    refine ⟨h, (hmem h).mpr ⟨hh, fun heq => ?_⟩, hheader⟩
    rw [hnone h hh heq] at hheader
    exact absurd hheader (by simp)

theorem return_held (bufInfo : Buffer) (next : Option Buffer) :
    (returnDeqBufInfo p s bufInfo next).held = s.held := by
  have hfree : ∀ a, (s.free p a).held = s.held := by
    intro a
    unfold Channel.free
    split <;> rfl
  unfold returnDeqBufInfo
  split
  · exact hfree _
  · split
    · exact hfree _
    · rfl

theorem step_deque {deque_buf : Option (List (Frame ρ))}
    (h : step p s (.deque deque_buf) = some t) :
    Fresh s (handedOut p deque_buf) ∧ t = dequeueHwBuf p s deque_buf := by
  unfold step at h
  dsimp only at h
  split at h
  · rename_i hfresh
    exact ⟨hfresh, (Option.some.inj h).symm⟩
  · exact absurd h (by simp)

theorem step_enque {bufInfo : Buffer} {next : Option Buffer} {a : EnqueAnswers}
    (h : step p s (.enque bufInfo next a) = some t) :
    Known s (given bufInfo next) ∧ t.mN = (returnDeqBufInfo p s bufInfo next).mN ∧
      (Accepted p a →
        t.held = s.held.filter fun h => h.base_pAddr ≠ (given bufInfo next).base_pAddr) ∧
      (¬ Accepted p a → t.held = s.held) := by
  obtain ⟨hnodes, hheld⟩ := @enqueue_nodes ρ p s bufInfo next a
  rw [return_held] at hheld
  unfold step at h
  dsimp only at h
  split at h
  · rename_i hknown
    have ht := (Option.some.inj h).symm
    by_cases hret : (enqueueHwBuf p s bufInfo next a).1 = 0
    · rw [if_pos hret] at ht
      refine ⟨hknown, by rw [ht]; exact hnodes, fun _ => ?_, fun hnot => ?_⟩
      · rw [ht, ← hheld]
      · exact absurd (enqueue_ret.mp hret) hnot
    · rw [if_neg hret] at ht
      refine ⟨hknown, by rw [ht]; exact hnodes, fun hyes => ?_, fun _ => by rw [ht]; exact hheld⟩
      exact absurd (enqueue_ret.mpr hyes) hret
  · exact absurd h (by simp)

/-- A second buffer overwrites the node of the first. -/
theorem not_right_burst {u : Channel ρ} {i : ℕ} {f g : Frame ρ} {frames : List (Frame ρ)}
    (hfresh : Fresh s (f :: g :: frames))
    (hnodes : t.mN = (fill (some i) u none (f :: g :: frames)).mN)
    (hheld : t.held = s.held ++ (f :: g :: frames).map (Frame.info · (some i))) :
    ¬ HeadersRight p t := by
  intro hright
  have hmem : f.info (some i) ∈ t.held := by
    rw [hheld]
    simp
  have haddress := (hright _ hmem i rfl).2.2.1
  obtain ⟨front, last, hlast⟩ : ∃ front last, g :: frames = front ++ [last] :=
    ⟨_, _, (List.dropLast_append_getLast (List.cons_ne_nil g frames)).symm⟩
  rw [hnodes, hlast, ← List.cons_append, fill_last] at haddress
  have hne := (List.nodup_cons.mp hfresh.1).1
  apply hne
  rw [hlast]
  exact List.mem_map.mpr ⟨last, by simp, haddress⟩

/-- A step keeps the headers right exactly when it meets the conditions. -/
theorem headers_step {e : Event ρ} (hs : Tracked p s) (h : step p s e = some t) :
    OneByOne p s e t ∧ Tracked p t ∧ HeadersRight p t ∨
      ¬ OneByOne p s e t ∧ ¬ HeadersRight p t := by
  have hkept : OneByOne p s e t → Tracked p t →
      OneByOne p s e t ∧ Tracked p t ∧ HeadersRight p t := fun hone ht => ⟨hone, ht, ht.right⟩
  cases e with
  | deque deque_buf =>
    obtain ⟨hfresh, rfl⟩ := step_deque h
    obtain ⟨hnodes, hheld⟩ := dequeue_eq (p := p) (s := s) deque_buf
    rcases save_cases (p := p) (s := s) with ⟨i, hi, hfree, hsave⟩ | ⟨hfull, hsave⟩
    · rw [hsave] at hnodes hheld
      cases hframes : handedOut p deque_buf with
      | nil =>
        rw [hframes] at hnodes hheld
        refine Or.inl (hkept ?_ (tracked_fruitless hs hi hfree hnodes ?_))
        · intro _
          rw [hframes]
          exact Nat.zero_le 1
        · rw [hheld]
          exact List.append_nil _
      | cons f frames =>
        rw [hframes] at hnodes hheld hfresh
        cases frames with
        | nil =>
          refine Or.inl (hkept ?_ (tracked_single hs hi hfree hfresh ?_ hheld))
          · intro _
            rw [hframes]
            exact le_rfl
          · rw [hnodes]
            simp [fill, Channel.setNode, Frame.info]
        | cons g frames =>
          refine Or.inr ⟨fun hone => ?_, ?_⟩
          · have hlen := hone ⟨i, hi, hfree⟩
            rw [hframes] at hlen
            simp at hlen
          · exact not_right_burst hfresh hnodes hheld
    · rw [hsave] at hnodes hheld
      rw [fill_none_nodes] at hnodes
      refine Or.inl (hkept ?_ (tracked_no_node hs hfresh hnodes hheld))
      rintro ⟨i, hi, hfree⟩
      rw [hfull i hi] at hfree
      exact absurd hfree (by simp)
  | enque bufInfo next a =>
    obtain ⟨hknown, hnodes, hyes, hno⟩ := step_enque h
    by_cases hheader : ∃ b ∈ s.held,
        b.base_pAddr = (given bufInfo next).base_pAddr ∧ b.header_info ≠ none
    · obtain ⟨b, hb, haddress, hsome⟩ := hheader
      obtain ⟨i, hi⟩ := Option.ne_none_iff_exists'.mp hsome
      rw [return_of_header hs hknown hb haddress hi] at hnodes
      by_cases hacc : Accepted p a
      · refine Or.inl (hkept (fun _ => hacc) (tracked_enqueued hs hb hi hnodes ?_))
        rw [hyes hacc, haddress]
      · refine Or.inr ⟨fun hone => hacc (hone ⟨b, hb, haddress, hsome⟩), fun hright => ?_⟩
        have hocc := (hright b (by rw [hno hacc]; exact hb) i hi).2.1
        rw [hnodes] at hocc
        simp [Channel.setNode] at hocc
    · have hnone : ∀ b ∈ s.held,
          b.base_pAddr = (given bufInfo next).base_pAddr → b.header_info = none := by
        intro b hb haddress
        by_contra hne
        exact hheader ⟨b, hb, haddress, hne⟩
      rw [return_of_no_header hs hknown hnone] at hnodes
      refine Or.inl (hkept (fun hsome => absurd hsome hheader) ?_)
      by_cases hacc : Accepted p a
      · exact tracked_returned hs hnone hnodes (hyes hacc)
      · exact hs.congr hnodes (hno hacc)

end Law

section Runs

variable (p : Platform)

theorem tracked_initial [Inhabited ρ] : Tracked p (initial : Channel ρ) where
  right _ hb := absurd hb List.not_mem_nil
  distinct := List.nodup_nil
  nonzero _ hb := absurd hb List.not_mem_nil
  free _ _ _ := rfl
  owned _ _ h := absurd rfl h

/-- In a run the header of every buffer in hand stays right exactly when each deque that
finds a free node hands out at most one buffer and each buffer with a header is
enqueued with success. -/
theorem headers_right_iff [Inhabited ρ] (es : List (Event ρ)) :
    AllSteps (step p) (fun _ _ t => HeadersRight p t) initial es ↔
      AllSteps (step p) (OneByOne p) initial es := by
  apply allSteps_iff (step p) _ (tracked_initial p)
  intro s e t hs h
  exact headers_step hs h

def occupied (s : Channel ρ) : Finset ℕ :=
  (Finset.range p.ISP_BUF_INFO_NODE_MAX_CNT).filter fun i => (s.mN i).mOccupied = true

def withHeader (s : Channel ρ) : ℕ := s.held.countP fun b => b.header_info.isSome

def Fruitless (s : Channel ρ) : Event ρ → Prop
  | .deque deque_buf => (saveDeqBufInfo p s).1 ≠ none ∧ handedOut p deque_buf = []
  | .enque _ _ _ => False

instance (s : Channel ρ) (e : Event ρ) : Decidable (Fruitless p s e) :=
  match e with
  | .deque deque_buf => decidable_of_iff
      ((saveDeqBufInfo p s).1.isSome = true ∧ (handedOut p deque_buf).isEmpty = true)
      (by simp [Fruitless, Option.isSome_iff_ne_none])
  | .enque _ _ _ => inferInstanceAs (Decidable False)

def leaks : Channel ρ → List (Event ρ) → ℕ
  | _, [] => 0
  | s, e :: es =>
    (if Fruitless p s e then 1 else 0) + (step p s e).elim 0 fun t => leaks t es

end Runs

section Account

variable {p : Platform} {s t : Channel ρ} {i : ℕ}

theorem mem_occupied : i ∈ occupied p s ↔
    i < p.ISP_BUF_INFO_NODE_MAX_CNT ∧ (s.mN i).mOccupied = true := by
  rw [occupied, Finset.mem_filter, Finset.mem_range]

/-- One more node is taken. -/
theorem card_occupied_take {node : Node ρ} (hi : i < p.ISP_BUF_INFO_NODE_MAX_CNT)
    (hfree : (s.mN i).mOccupied = false) (hnode : node.mOccupied = true)
    (hnodes : t.mN = Function.update s.mN i node) :
    (occupied p t).card = (occupied p s).card + 1 := by
  have hinsert : occupied p t = insert i (occupied p s) := by
    ext j
    rw [Finset.mem_insert, mem_occupied, mem_occupied, hnodes]
    by_cases hj : j = i
    · subst hj
      rw [Function.update_self]
      exact iff_of_true ⟨hi, hnode⟩ (Or.inl rfl)
    · rw [Function.update_of_ne hj, or_iff_right hj]
  rw [hinsert, Finset.card_insert_of_notMem]
  rw [mem_occupied, hfree]
  simp

/-- One node less is taken. -/
theorem card_occupied_free {node : Node ρ} (hi : i < p.ISP_BUF_INFO_NODE_MAX_CNT)
    (htaken : (s.mN i).mOccupied = true) (hnode : node.mOccupied = false)
    (hnodes : t.mN = Function.update s.mN i node) :
    (occupied p t).card + 1 = (occupied p s).card := by
  have herase : occupied p t = (occupied p s).erase i := by
    ext j
    rw [Finset.mem_erase, mem_occupied, mem_occupied, hnodes]
    by_cases hj : j = i
    · subst hj
      rw [Function.update_self, hnode]
      simp
    · rw [Function.update_of_ne hj, and_iff_right hj]
  rw [herase, Finset.card_erase_add_one (mem_occupied.mpr ⟨hi, htaken⟩)]

/-- Only the buffer itself goes back with its address. -/
theorem withHeader_enqueued (hs : Tracked p s) {b : BufInfo ρ} (hb : b ∈ s.held)
    (hheader : b.header_info = some i)
    (hheld : t.held = s.held.filter fun h => h.base_pAddr ≠ b.base_pAddr) :
    withHeader t + 1 = withHeader s := by
  obtain ⟨front, back, heq⟩ := List.append_of_mem hb
  have hdistinct := hs.distinct
  rw [heq, List.map_append, List.map_cons, List.nodup_middle, List.nodup_cons, List.mem_append,
    not_or] at hdistinct
  have hne : ∀ l : List (BufInfo ρ), b.base_pAddr ∉ l.map BufInfo.base_pAddr →
      (l.filter fun h => h.base_pAddr ≠ b.base_pAddr) = l := by
    intro l hl
    apply List.filter_eq_self.mpr
    intro h hh
    exact decide_eq_true fun heq => hl (List.mem_map.mpr ⟨h, hh, heq⟩)
  unfold withHeader
  rw [hheld, heq, List.filter_append, List.filter_cons_of_neg (by simp), hne _ hdistinct.1.1,
    hne _ hdistinct.1.2, List.countP_append, List.countP_append,
    List.countP_cons_of_pos (by rw [hheader]; rfl)]
  rfl

/-- Buffers without a header do not count. -/
theorem withHeader_returned {b : Buffer}
    (hnone : ∀ h ∈ s.held, h.base_pAddr = b.base_pAddr → h.header_info = none)
    (hheld : t.held = s.held.filter fun h => h.base_pAddr ≠ b.base_pAddr) :
    withHeader t = withHeader s := by
  unfold withHeader
  rw [hheld, List.countP_filter]
  apply List.countP_congr
  intro h hh
  rw [Bool.and_eq_true, decide_eq_true_iff]
  refine and_iff_left_of_imp fun hsome heq => ?_
  rw [hnone h hh heq] at hsome
  exact absurd hsome (by simp)

/-- A node is taken for each buffer with a header, and for each fruitless deque. -/
theorem account_step {e : Event ρ} (hs : Tracked p s) (h : step p s e = some t)
    (hone : OneByOne p s e t) :
    (occupied p t).card + withHeader s =
      (occupied p s).card + withHeader t + if Fruitless p s e then 1 else 0 := by
  cases e with
  | deque deque_buf =>
    obtain ⟨hfresh, rfl⟩ := step_deque h
    obtain ⟨hnodes, hheld⟩ := dequeue_eq (p := p) (s := s) deque_buf
    have hfruitless : Fruitless p s (.deque deque_buf) ↔
        (saveDeqBufInfo p s).1 ≠ none ∧ handedOut p deque_buf = [] := Iff.rfl
    rcases save_cases (p := p) (s := s) with ⟨i, hi, hfree, hsave⟩ | ⟨hfull, hsave⟩
    · rw [hsave] at hnodes hheld hfruitless
      cases hframes : handedOut p deque_buf with
      | nil =>
        rw [hframes] at hnodes hheld hfruitless
        rw [if_pos (hfruitless.mpr ⟨by simp, rfl⟩), card_occupied_take hi hfree rfl hnodes,
          withHeader, withHeader, hheld, List.map_nil, List.append_nil]
        omega
      | cons f frames =>
        rw [hframes] at hnodes hheld hfruitless
        have hlen := hone ⟨i, hi, hfree⟩
        rw [hframes] at hlen
        obtain rfl : frames = [] := by
          cases frames with
          | nil => rfl
          | cons g frames => simp at hlen
        have hnodes' : (dequeueHwBuf p s deque_buf).mN =
            Function.update s.mN i ⟨true, f.info none⟩ := by
          rw [hnodes]
          simp [fill, Channel.setNode, Frame.info]
        rw [if_neg (by rw [hfruitless]; simp), card_occupied_take hi hfree rfl hnodes', withHeader,
          withHeader, hheld, List.map_singleton, List.countP_append,
          List.countP_cons_of_pos (by rfl), List.countP_nil]
        omega
    · rw [hsave] at hnodes hheld hfruitless
      rw [fill_none_nodes] at hnodes
      have hheaders : ∀ l : List (Frame ρ),
          (l.map (Frame.info · none)).countP (fun b => b.header_info.isSome) = 0 := by
        intro l
        rw [List.countP_eq_zero]
        intro b hb
        obtain ⟨f, -, rfl⟩ := List.mem_map.mp hb
        simp [Frame.info]
      rw [if_neg (by rw [hfruitless]; simp), occupied, hnodes, withHeader, withHeader, hheld,
        List.countP_append, hheaders]
      rfl
  | enque bufInfo next a =>
    rw [if_neg (show ¬ Fruitless p s (.enque bufInfo next a) from id)]
    obtain ⟨hknown, hnodes, hyes, hno⟩ := step_enque h
    by_cases hheader : ∃ b ∈ s.held,
        b.base_pAddr = (given bufInfo next).base_pAddr ∧ b.header_info ≠ none
    · have hacc := hone hheader
      obtain ⟨b, hb, haddress, hsome⟩ := hheader
      obtain ⟨i, hi⟩ := Option.ne_none_iff_exists'.mp hsome
      obtain ⟨hlt, htaken, -⟩ := hs.right b hb i hi
      rw [return_of_header hs hknown hb haddress hi] at hnodes
      have hcard := card_occupied_free (p := p) hlt htaken rfl hnodes
      have hcount := withHeader_enqueued hs hb hi (by rw [hyes hacc, haddress])
      omega
    · have hnone : ∀ b ∈ s.held,
          b.base_pAddr = (given bufInfo next).base_pAddr → b.header_info = none := by
        intro b hb haddress
        by_contra hne
        exact hheader ⟨b, hb, haddress, hne⟩
      rw [return_of_no_header hs hknown hnone] at hnodes
      have hcard : occupied p t = occupied p s := by rw [occupied, occupied, hnodes]
      have hcount : withHeader t = withHeader s := by
        by_cases hacc : Accepted p a
        · exact withHeader_returned hnone (hyes hacc)
        · rw [withHeader, hno hacc, withHeader]
      rw [hcard, hcount, Nat.add_zero]

theorem account_run {es : List (Event ρ)} (hs : Tracked p s) (hrun : exec (step p) s es = some t)
    (hone : AllSteps (step p) (OneByOne p) s es) :
    Tracked p t ∧ (occupied p t).card + withHeader s =
      (occupied p s).card + withHeader t + leaks p s es := by
  induction es generalizing s with
  | nil =>
    obtain rfl : s = t := Option.some.inj hrun
    exact ⟨hs, rfl⟩
  | cons e es ih =>
    obtain ⟨u, hu, hrest⟩ := (exec_cons_eq_some (step p)).mp hrun
    obtain ⟨hstep, hsteps⟩ := hone u hu
    have hu' : Tracked p u := by
      rcases headers_step hs hu with ⟨-, hu', -⟩ | ⟨hnot, -⟩
      · exact hu'
      · exact absurd hstep hnot
    obtain ⟨ht, hcount⟩ := ih hu' hrest hsteps
    have hcount' := account_step hs hu hstep
    refine ⟨ht, ?_⟩
    rw [leaks, hu, Option.elim_some]
    omega

/-- The nodes that are taken are those of the buffers in hand and those of the fruitless
deques, so a deque has no header for what it hands out as soon as the two together are
as many as there are nodes. -/
theorem leaks_accounted [Inhabited ρ] {es : List (Event ρ)}
    (hrun : exec (step p) initial es = some t)
    (hone : AllSteps (step p) (OneByOne p) initial es) :
    withHeader t + leaks p initial es ≤ p.ISP_BUF_INFO_NODE_MAX_CNT ∧
      ((saveDeqBufInfo p t).1 = none ↔
        withHeader t + leaks p initial es = p.ISP_BUF_INFO_NODE_MAX_CNT) := by
  obtain ⟨-, hcount⟩ := account_run (tracked_initial p) hrun hone
  have hempty : (occupied p (initial : Channel ρ)).card = 0 := by
    rw [Finset.card_eq_zero, occupied, Finset.filter_eq_empty_iff]
    intro i _
    simp [initial]
  have hnone : withHeader (initial : Channel ρ) = 0 := rfl
  have hle : (occupied p t).card ≤ p.ISP_BUF_INFO_NODE_MAX_CNT := by
    have hcard := Finset.card_filter_le (Finset.range p.ISP_BUF_INFO_NODE_MAX_CNT)
      (fun i => (t.mN i).mOccupied = true)
    rwa [Finset.card_range] at hcard
  rw [hempty, hnone] at hcount
  refine ⟨by omega, ?_⟩
  have hcard : withHeader t + leaks p initial es = (occupied p t).card := by omega
  rw [hcard]
  rcases save_cases (p := p) (s := t) with ⟨i, hi, hfree, hsave⟩ | ⟨hfull, hsave⟩
  · rw [hsave]
    refine iff_of_false (by simp) fun heq => ?_
    have hall := Finset.card_filter_eq_iff.mp (heq.trans (Finset.card_range _).symm)
    rw [hall i (Finset.mem_range.mpr hi)] at hfree
    exact absurd hfree (by simp)
  · rw [hsave]
    refine iff_of_true rfl ?_
    rw [occupied, Finset.filter_true_of_mem fun i hi => hfull i (Finset.mem_range.mp hi),
      Finset.card_range]

def twoNodes : Platform := ⟨2, 16, 3⟩

def heldAndLost : List (Event Unit) := [.deque (some [⟨16, 4096, ()⟩]), .deque none]

theorem leaks_accounted_heldAndLost : ∃ t : Channel Unit,
    exec (step twoNodes) initial heldAndLost = some t ∧ withHeader t = 1 ∧
      leaks twoNodes initial heldAndLost = 1 ∧ (saveDeqBufInfo twoNodes t).1 = none := by
  obtain ⟨t, ht, hheld, hlost⟩ : ∃ t : Channel Unit,
      exec (step twoNodes) initial heldAndLost = some t ∧ withHeader t = 1 ∧
        leaks twoNodes (initial : Channel Unit) heldAndLost = 1 :=
    ⟨_, rfl, rfl, rfl⟩
  have hone : AllSteps (step twoNodes) (OneByOne twoNodes) (initial : Channel Unit)
      heldAndLost := by
    apply allSteps_of_forall
    intro e he s u
    rcases List.mem_pair.mp he with rfl | rfl
    · exact fun _ => Nat.le_refl 1
    · exact fun _ => Nat.zero_le 1
  refine ⟨t, ht, hheld, hlost, (leaks_accounted ht hone).2.mpr ?_⟩
  rw [hheld, hlost]
  rfl

end Account

end Fixed.DequeNodes
