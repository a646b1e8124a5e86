import Mathlib.Data.PNat.Basic
import Fixed.ObjectLedger
import Fixed.Runs
import Fixed.VirtualIsp

/-!
The shell that shares the ISP driver among its users in `isp_function.cpp`: `init` and
`uninit` count them, `updateBurstQueueNum` frees and allocates the buffers of the burst
queues again. A first `init` that fails half-way answers -1, which is as good as `MTRUE`
to a user, one whose virtual drivers fail answers `MTRUE`, and an update that fails half-way
leaves no table. So the IMEM, ISP, twin and virtual drivers and the buffers are all there
while there are users, and all gone when there are none, exactly if no first `init` fails,
no update loses its table or a virtual driver, and no last `uninit` stops early. The CRZ
driver is initialised by each first `init` and never uninitialised. A lost table never comes
back. The drivers are outside this repository: the numbers of queues that the ISP driver
answers with are the last it was given, and there is at least one command queue.
-/
namespace Fixed.IspShell

open ObjectLedger Runs VirtualIsp

def MFALSE : ℤ := 0

structure AllocAnswer where
  /-- The buffer of the table is allocated. -/
  allocVirtBuf : Bool
  /-- All the tpipe buffers of a burst queue are. -/
  tpipe : ℕ → Bool
  malloc_drv : Bool
  malloc_reg : Bool
  queue : ℕ → QueueAnswer

structure InitAnswer where
  imemDrv : Bool
  /-- `lsciSwWorkaroundBufInfo` is allocated. -/
  allocVirtBuf : Bool
  ispDrv : Bool
  ispDrv_init : ℤ
  /-- `ISP_DRV_CQNUMINFO_CTRL_GET_CURBURSTQNUM` -/
  curBurstQNum : ℕ
  /-- `ISP_DRV_CQNUMINFO_CTRL_GET_TOTALCQNUM` -/
  totalCQNum : ℕ+
  alloc : AllocAnswer
  crzDrv : Bool
  twinDrv : Bool
  eventThread : Bool

structure UpdateAnswer where
  cqTable_dealloc : Bool
  virt_uninit : ℕ → ℤ
  /-- The total that `ISP_DRV_CQNUMINFO_CTRL_UPDATE_TOTALCQNUM` makes. -/
  totalCQNum : ℕ+
  cqTable_alloc : Bool
  alloc : AllocAnswer

structure UninitAnswer where
  virt_uninit : ℕ → ℤ
  ispDrv_uninit : ℤ

structure Shell (ι : Type*) where
  mInitCount : ℕ
  /-- Whose `init` answered anything but `MFALSE`, up to their `uninit`. -/
  users : Finset ι
  /-- The times each driver is initialised. -/
  imemDrv : ℕ
  ispDrv : ℕ
  crzDrv : ℕ
  twinDrv : ℕ
  curBurstQNum : ℕ
  totalCQNum : ℕ+
  lsciSwWorkaroundBufs : ℕ
  /-- `gpMdpMgrCfgData` is not null. -/
  table : Bool
  mdpBufs : ℕ
  /-- The burst queues that have all their tpipe buffers. -/
  tpipeBufs : ℕ
  m_pVirtIspDrv : Ptr
  m_pVirtIspReg : Ptr
  mallocs : Ledger
  queues : ℕ → Queue
  /-- The buffers freed that were not there. -/
  faults : ℕ
  crashed : Bool

variable {ι : Type*}

/-- The two arrays, allocated and filled. A null pointer is used before it is tested. -/
def malloc_virtual (s : Shell ι) (a : AllocAnswer) : Shell ι × ℤ :=
  if a.malloc_drv ∧ a.malloc_reg then
    match fill a.queue (fresh s.queues) MTRUE 0 s.totalCQNum with
    | (qs, ret) =>
      ({ s with
        m_pVirtIspDrv := .obj s.mallocs.made
        m_pVirtIspReg := .obj s.mallocs.alloc.made
        mallocs := s.mallocs.alloc.alloc
        queues := qs }, ret)
  else ({ s with crashed := true }, MFALSE)

/-- `controlBurstQueBuffer(eIspControlBufferCmd_Alloc, burstQueueNum)`; a table without a
buffer is written to all the same. -/
def alloc_buffers (s : Shell ι) (burstQueueNum : ℕ) (a : AllocAnswer) : Shell ι × ℤ :=
  if a.allocVirtBuf = false ∧ 0 < burstQueueNum then ({ s with crashed := true }, MFALSE)
  else
    malloc_virtual { s with
      table := true
      mdpBufs := if a.allocVirtBuf then s.mdpBufs + 1 else s.mdpBufs
      tpipeBufs := s.tpipeBufs + (List.range burstQueueNum).countP a.tpipe
      mallocs := (s.mallocs.release s.m_pVirtIspDrv).release s.m_pVirtIspReg } a

/-- `controlBurstQueBuffer(eIspControlBufferCmd_Free, burstQueueNum)`, which never answers
`MFALSE`. -/
def free_buffers (s : Shell ι) (burstQueueNum : ℕ) (virt_uninit : ℕ → ℤ) : Shell ι :=
  if s.table = false ∧ 0 < burstQueueNum then { s with crashed := true }
  else
    let s := { s with
      table := false
      mdpBufs := s.mdpBufs - 1
      tpipeBufs := s.tpipeBufs - burstQueueNum
      faults := s.faults + (if s.mdpBufs = 0 then 1 else 0) + (burstQueueNum - s.tpipeBufs) }
    if s.m_pVirtIspDrv = .null then { s with crashed := true }
    else
      match VirtualIsp.uninit virt_uninit s.queues 0 s.totalCQNum with
      | (qs, .crash) => { s with queues := qs, crashed := true }
      | (qs, .fails _) => { s with queues := qs }
      | (qs, .done) =>
        { s with
          queues := qs
          m_pVirtIspDrv := .null
          m_pVirtIspReg := .null
          mallocs := (s.mallocs.release s.m_pVirtIspDrv).release s.m_pVirtIspReg }

/-- `patch` is `_CmdQ_HwBug_Patch_`. -/
def init_first (patch : Bool) (s : Shell ι) (a : InitAnswer) : Shell ι × ℤ :=
  if a.imemDrv = false then (s, -1)
  else
    let s := { s with
      imemDrv := s.imemDrv + 1
      lsciSwWorkaroundBufs :=
        if patch ∧ a.allocVirtBuf then s.lsciSwWorkaroundBufs + 1 else s.lsciSwWorkaroundBufs }
    if a.ispDrv = false then (s, 0)
    else if a.ispDrv_init < 0 then (s, a.ispDrv_init)
    else
      let s := (alloc_buffers { s with
        ispDrv := s.ispDrv + 1
        curBurstQNum := a.curBurstQNum
        totalCQNum := a.totalCQNum } a.curBurstQNum a.alloc).1
      if a.crzDrv = false then (s, -1)
      else
        let s := { s with crzDrv := s.crzDrv + 1 }
        if a.twinDrv = false then (s, -1)
        else
          let s := { s with twinDrv := s.twinDrv + 1 }
          if a.eventThread = false then (s, -1)
          else ({ s with mInitCount := s.mInitCount + 1 }, MTRUE)

def init (patch : Bool) (s : Shell ι) (a : InitAnswer) : Shell ι × ℤ :=
  if 0 < s.mInitCount then ({ s with mInitCount := s.mInitCount + 1 }, MTRUE)
  else init_first patch s a

/-- The workaround buffer is freed with or without the patch. -/
def uninit (s : Shell ι) (a : UninitAnswer) : Shell ι :=
  if s.mInitCount = 0 then s
  else
    let s := { s with mInitCount := s.mInitCount - 1 }
    if 0 < s.mInitCount then s
    else
      let s := { s with
        lsciSwWorkaroundBufs := s.lsciSwWorkaroundBufs - 1
        faults := if s.lsciSwWorkaroundBufs = 0 then s.faults + 1 else s.faults }
      let s := free_buffers s s.curBurstQNum a.virt_uninit
      let s := { s with imemDrv := s.imemDrv - 1, twinDrv := s.twinDrv - 1 }
      if a.ispDrv_uninit < 0 then s else { s with ispDrv := s.ispDrv - 1 }

def updateBurstQueueNum (s : Shell ι) (burstQNum : ℕ) (a : UpdateAnswer) : Shell ι × ℤ :=
  if burstQNum = s.curBurstQNum then (s, MTRUE)
  else if a.cqTable_dealloc = false then (s, MFALSE)
  else
    let s := free_buffers s s.curBurstQNum a.virt_uninit
    let s := { s with curBurstQNum := burstQNum, totalCQNum := a.totalCQNum }
    if a.cqTable_alloc = false then (s, MFALSE) else alloc_buffers s burstQNum a.alloc

inductive Event (ι : Type*)
  | init (i : ι) (a : InitAnswer)
  | uninit (i : ι) (a : UninitAnswer)
  | update (burstQNum : ℕ) (a : UpdateAnswer)

/-- A user calls `init` and `uninit` in turn. The number of burst queues is updated while
the ISP driver is there; a crash ends a run. -/
def step [DecidableEq ι] (patch : Bool) (s : Shell ι) (e : Event ι) : Option (Shell ι) :=
  if s.crashed then none
  else
    match e with
    | .init i a =>
      if i ∈ s.users then none
      else
        match init patch s a with
        | (s, ret) => some (if ret = MFALSE then s else { s with users := insert i s.users })
    | .uninit i a =>
      if i ∈ s.users then
        let s := uninit s a
        some { s with users := s.users.erase i }
      else none
    | .update burstQNum a =>
      if 0 < s.mInitCount then some (updateBurstQueueNum s burstQNum a).1 else none

def initial : Shell ι where
  mInitCount := 0
  users := ∅
  imemDrv := 0
  ispDrv := 0
  crzDrv := 0
  twinDrv := 0
  curBurstQNum := 0
  totalCQNum := 1
  lsciSwWorkaroundBufs := 0
  table := false
  mdpBufs := 0
  tpipeBufs := 0
  m_pVirtIspDrv := .null
  m_pVirtIspReg := .null
  mallocs := .empty
  queues := fun _ => ⟨.null, .null, 0⟩
  faults := 0
  crashed := false

def Virtual (s : Shell ι) : Prop :=
  ∃ d r, d ≠ r ∧ s.m_pVirtIspDrv = .obj d ∧ s.m_pVirtIspReg = .obj r ∧ s.mallocs.live = {d, r}

def NoVirtual (s : Shell ι) : Prop :=
  s.m_pVirtIspDrv = .null ∧ s.m_pVirtIspReg = .null ∧ s.mallocs.live = ∅

/-- The buffers of the burst queues and the virtual drivers are there once. -/
structure Allocated (s : Shell ι) : Prop where
  table : s.table = true
  mdpBufs : s.mdpBufs = 1
  tpipeBufs : s.tpipeBufs = s.curBurstQNum
  virtual : Virtual s
  queues : Inited s.queues s.totalCQNum

/-- So is everything else but the CRZ driver. -/
structure Up (patch : Bool) (s : Shell ι) : Prop where
  imemDrv : s.imemDrv = 1
  ispDrv : s.ispDrv = 1
  twinDrv : s.twinDrv = 1
  lsci : s.lsciSwWorkaroundBufs = if patch then 1 else 0
  allocated : Allocated s

structure Down (s : Shell ι) : Prop where
  imemDrv : s.imemDrv = 0
  ispDrv : s.ispDrv = 0
  twinDrv : s.twinDrv = 0
  lsci : s.lsciSwWorkaroundBufs = 0
  table : s.table = false
  mdpBufs : s.mdpBufs = 0
  tpipeBufs : s.tpipeBufs = 0
  virtual : NoVirtual s
  queues : Idle s.queues

structure Shared (patch : Bool) (s : Shell ι) : Prop where
  users : s.users.card = s.mInitCount
  up : 0 < s.mInitCount → Up patch s
  down : s.mInitCount = 0 → Down s
  sound : s.mallocs.faults = 0
  alive : s.crashed = false

/-- What a step adds for good: a first `init` an `Init` of the CRZ driver, and without the
patch a last `uninit` the free of a workaround buffer that is not there. -/
def Leaves (patch : Bool) (s : Shell ι) (e : Event ι) (t : Shell ι) : Prop :=
  match e with
  | .init _ _ =>
    t.crzDrv = (if s.mInitCount = 0 then s.crzDrv + 1 else s.crzDrv) ∧ t.faults = s.faults
  | .uninit _ _ =>
    t.crzDrv = s.crzDrv ∧
      t.faults = if s.mInitCount = 1 ∧ patch = false then s.faults + 1 else s.faults
  | .update _ _ => t.crzDrv = s.crzDrv ∧ t.faults = s.faults

def AllocAnswer.Ok (a : AllocAnswer) (b n : ℕ) : Prop :=
  a.allocVirtBuf = true ∧ (∀ k < b, a.tpipe k = true) ∧ a.malloc_drv = true ∧
    a.malloc_reg = true ∧ ∀ cq < n, (a.queue cq).Ok

def InitAnswer.Ok (patch : Bool) (a : InitAnswer) : Prop :=
  a.imemDrv = true ∧ (patch = true → a.allocVirtBuf = true) ∧ a.ispDrv = true ∧
    0 ≤ a.ispDrv_init ∧ a.alloc.Ok a.curBurstQNum a.totalCQNum ∧ a.crzDrv = true ∧
    a.twinDrv = true ∧ a.eventThread = true

/-- No first `init` fails, no update fails after the old command queues are gone, and no
last `uninit` stops early. -/
def Completes (patch : Bool) (s : Shell ι) (e : Event ι) (_ : Shell ι) : Prop :=
  match e with
  | .init _ a => s.mInitCount = 0 → a.Ok patch
  | .uninit _ a => s.mInitCount = 1 →
      (∀ cq < (s.totalCQNum : ℕ), 0 ≤ a.virt_uninit cq) ∧ 0 ≤ a.ispDrv_uninit
  | .update burstQNum a => burstQNum ≠ s.curBurstQNum → a.cqTable_dealloc = true →
      (∀ cq < (s.totalCQNum : ℕ), 0 ≤ a.virt_uninit cq) ∧ a.cqTable_alloc = true ∧
        a.alloc.Ok burstQNum a.totalCQNum

section Buffers

variable {s t : Shell ι} {b : ℕ} {a : AllocAnswer}

/-- Freeing both arrays. -/
theorem release_virtual (h : Virtual s) :
    ((s.mallocs.release s.m_pVirtIspDrv).release s.m_pVirtIspReg).live = ∅ ∧
      ((s.mallocs.release s.m_pVirtIspDrv).release s.m_pVirtIspReg).faults =
        s.mallocs.faults := by
  obtain ⟨d, r, hne, hdrv, hreg, hlive⟩ := h
  have hd : d ∈ s.mallocs.live := by
    rw [hlive]
    exact Finset.mem_insert_self _ _
  have hrest : (s.mallocs.release (.obj d)).live = {r} := by
    rw [Ledger.release_live hd, hlive, Finset.erase_insert]
    exact fun hmem => hne (Finset.mem_singleton.mp hmem)
  have hr : r ∈ (s.mallocs.release (.obj d)).live := by
    rw [hrest]
    exact Finset.mem_singleton_self r
  rw [hdrv, hreg, Ledger.release_live hr, Ledger.release_faults hr, Ledger.release_faults hd,
    hrest]
  exact ⟨Finset.erase_singleton r, rfl⟩

theorem countP_range_eq {f : ℕ → Bool} : (List.range b).countP f = b ↔ ∀ k < b, f k = true := by
  have hlength := List.countP_eq_length (p := f) (l := List.range b)
  rw [List.length_range] at hlength
  simp only [hlength, List.mem_range]

/-- An allocation or a free leaves the users and the other drivers alone. -/
structure SameRest (s t : Shell ι) : Prop where
  mInitCount : t.mInitCount = s.mInitCount
  users : t.users = s.users
  imemDrv : t.imemDrv = s.imemDrv
  ispDrv : t.ispDrv = s.ispDrv
  crzDrv : t.crzDrv = s.crzDrv
  twinDrv : t.twinDrv = s.twinDrv
  lsci : t.lsciSwWorkaroundBufs = s.lsciSwWorkaroundBufs
  faults : t.faults = s.faults

structure Freed (s t : Shell ι) : Prop extends SameRest s t where
  table : t.table = false
  mdpBufs : t.mdpBufs = 0
  tpipeBufs : t.tpipeBufs = 0
  crashed : t.crashed = s.crashed

theorem SameRest.trans {u : Shell ι} (h : SameRest s t) (h' : SameRest t u) : SameRest s u :=
  ⟨h'.mInitCount.trans h.mInitCount, h'.users.trans h.users, h'.imemDrv.trans h.imemDrv,
    h'.ispDrv.trans h.ispDrv, h'.crzDrv.trans h.crzDrv, h'.twinDrv.trans h.twinDrv,
    h'.lsci.trans h.lsci, h'.faults.trans h.faults⟩

theorem sameRest_alloc_buffers (s : Shell ι) (b : ℕ) (a : AllocAnswer) :
    SameRest s (alloc_buffers s b a).1 := by
  unfold alloc_buffers
  split
  · exact ⟨rfl, rfl, rfl, rfl, rfl, rfl, rfl, rfl⟩
  · unfold malloc_virtual
    split
    · exact ⟨rfl, rfl, rfl, rfl, rfl, rfl, rfl, rfl⟩
    · exact ⟨rfl, rfl, rfl, rfl, rfl, rfl, rfl, rfl⟩

theorem alloc_buffers_crashed (h : s.crashed = true) : (alloc_buffers s b a).1.crashed = true := by
  unfold alloc_buffers
  split
  · rfl
  · unfold malloc_virtual
    split
    · exact h
    · rfl

/-- An allocation that succeeds. -/
theorem alloc_buffers_ok (hnone : NoVirtual s) (hmdp : s.mdpBufs = 0) (htpipe : s.tpipeBufs = 0)
    (hidle : Idle s.queues) (hb : s.curBurstQNum = b) (ha : a.Ok b s.totalCQNum) :
    Allocated (alloc_buffers s b a).1 ∧
      (alloc_buffers s b a).1.mallocs.faults = s.mallocs.faults ∧
      (alloc_buffers s b a).1.crashed = s.crashed := by
  obtain ⟨hbuf, hall, hd, hr, hqueue⟩ := ha
  obtain ⟨hdrv, hreg, hlive⟩ := hnone
  have hpass : (alloc_buffers s b a).1 = { s with
      table := true
      mdpBufs := s.mdpBufs + 1
      tpipeBufs := s.tpipeBufs + b
      m_pVirtIspDrv := .obj s.mallocs.made
      m_pVirtIspReg := .obj s.mallocs.alloc.made
      mallocs := s.mallocs.alloc.alloc
      queues := (fill a.queue (fresh s.queues) MTRUE 0 s.totalCQNum).1 } := by
    simp [alloc_buffers, malloc_virtual, hbuf, countP_range_eq.mpr hall, hd, hr, hdrv, hreg,
      Ledger.release]
  rw [hpass]
  refine ⟨⟨rfl, congrArg (· + 1) hmdp, ?_, ?_, fill_inited_iff.mpr ⟨hqueue, hidle⟩⟩, rfl, rfl⟩
  · dsimp only
    rw [htpipe, hb, Nat.zero_add]
  · refine ⟨s.mallocs.made, s.mallocs.alloc.made, Nat.ne_of_lt (Nat.lt_succ_self _), rfl, rfl, ?_⟩
    dsimp only
    rw [Ledger.alloc_live, Ledger.alloc_live, hlive, Finset.pair_comm]
    rfl

/-- One that does not crashes, or something of what it allocates is not there once. -/
theorem alloc_buffers_fails (hmdp : s.mdpBufs = 0) (htpipe : s.tpipeBufs = 0)
    (hb : s.curBurstQNum = b) (ha : ¬ (a.Ok b s.totalCQNum ∧ Idle s.queues)) :
    (alloc_buffers s b a).1.crashed = true ∨ ¬ Allocated (alloc_buffers s b a).1 := by
  unfold alloc_buffers
  split
  · exact Or.inl rfl
  · unfold malloc_virtual
    split
    · next hmalloc =>
      right
      intro hall
      have hbufs := hall.mdpBufs
      have hpipes := hall.tpipeBufs
      obtain ⟨hqueue, hidle⟩ := fill_inited_iff.mp hall.queues
      dsimp only at hbufs hpipes
      refine ha ⟨⟨?_, ?_, hmalloc.1, hmalloc.2, hqueue⟩, hidle⟩
      · by_contra hbuf
        rw [if_neg hbuf, hmdp] at hbufs
        exact Nat.zero_ne_one hbufs
      · rw [htpipe, Nat.zero_add, hb] at hpipes
        exact countP_range_eq.mp hpipes
    · exact Or.inl rfl

/-- What is there is freed; the arrays stay when a virtual driver's `uninit` fails. -/
theorem free_buffers_up (v : ℕ → ℤ) (h : Allocated s) :
    Freed s (free_buffers s s.curBurstQNum v) ∧
      ((∀ cq < (s.totalCQNum : ℕ), 0 ≤ v cq) ∧ NoVirtual (free_buffers s s.curBurstQNum v) ∧
          (free_buffers s s.curBurstQNum v).mallocs.faults = s.mallocs.faults ∧
          Idle (free_buffers s s.curBurstQNum v).queues ∨
        ¬ (∀ cq < (s.totalCQNum : ℕ), 0 ≤ v cq) ∧
          ¬ Idle (free_buffers s s.curBurstQNum v).queues) := by
  have hthere : ¬ (s.table = false ∧ 0 < s.curBurstQNum) := by
    rw [h.table]
    simp
  obtain ⟨d, r, -, hdrv, -, -⟩ := id h.virtual
  have harray : ¬ s.m_pVirtIspDrv = .null := by
    rw [hdrv]
    simp
  rcases h.queues.uninit v with ⟨qs, hqs, hv, hidle⟩ | ⟨qs, ret, hqs, hv, hidle⟩
  · obtain ⟨hlive, hfaults⟩ := release_virtual h.virtual
    have hfree : free_buffers s s.curBurstQNum v = { s with
        table := false
        mdpBufs := 0
        tpipeBufs := 0
        m_pVirtIspDrv := .null
        m_pVirtIspReg := .null
        mallocs := (s.mallocs.release s.m_pVirtIspDrv).release s.m_pVirtIspReg
        queues := qs } := by
      simp [free_buffers, if_neg hthere, h.mdpBufs, h.tpipeBufs, if_neg harray, hqs]
    rw [hfree]
    exact ⟨⟨⟨rfl, rfl, rfl, rfl, rfl, rfl, rfl, rfl⟩, rfl, rfl, rfl, rfl⟩,
      Or.inl ⟨hv, ⟨rfl, rfl, hlive⟩, hfaults, hidle⟩⟩
  · have hfree : free_buffers s s.curBurstQNum v = { s with
        table := false
        mdpBufs := 0
        tpipeBufs := 0
        queues := qs } := by
      simp [free_buffers, if_neg hthere, h.mdpBufs, h.tpipeBufs, if_neg harray, hqs]
    rw [hfree]
    exact ⟨⟨⟨rfl, rfl, rfl, rfl, rfl, rfl, rfl, rfl⟩, rfl, rfl, rfl, rfl⟩, Or.inr ⟨hv, hidle⟩⟩

/-- Without a table the program crashes. -/
theorem free_buffers_lost {v : ℕ → ℤ} (htable : s.table = false) (hb : 0 < b) :
    free_buffers s b v = { s with crashed := true } := if_pos ⟨htable, hb⟩

end Buffers

section Steps

variable {patch : Bool} {s t : Shell ι}

/-- Being up does not depend on the counts. -/
theorem Up.counts (h : Up patch s) (n : ℕ) (us : Finset ι) :
    Up patch { s with mInitCount := n, users := us } :=
  ⟨h.imemDrv, h.ispDrv, h.twinDrv, h.lsci, h.allocated.table, h.allocated.mdpBufs,
    h.allocated.tpipeBufs, h.allocated.virtual, h.allocated.queues⟩

theorem Up.of_sameRest (h : Up patch s) (hrest : SameRest s t) (hall : Allocated t) :
    Up patch t :=
  ⟨hrest.imemDrv.trans h.imemDrv, hrest.ispDrv.trans h.ispDrv, hrest.twinDrv.trans h.twinDrv,
    hrest.lsci.trans h.lsci, hall⟩

/-- A first `init` that succeeds. -/
theorem init_first_ok {a : InitAnswer} (hs : Shared patch s) (hc : s.mInitCount = 0)
    (ha : a.Ok patch) :
    (init_first patch s a).2 = MTRUE ∧ (init_first patch s a).1.users = s.users ∧
      (init_first patch s a).1.mInitCount = 1 ∧ Up patch (init_first patch s a).1 ∧
      (init_first patch s a).1.mallocs.faults = 0 ∧
      (init_first patch s a).1.crashed = false ∧
      (init_first patch s a).1.crzDrv = s.crzDrv + 1 ∧
      (init_first patch s a).1.faults = s.faults := by
  obtain ⟨himem, hlsci, hisp, hispInit, halloc, hcrz, htwin, hthread⟩ := ha
  have hdown := hs.down hc
  set m : Shell ι := { s with
    imemDrv := s.imemDrv + 1
    lsciSwWorkaroundBufs :=
      if patch ∧ a.allocVirtBuf then s.lsciSwWorkaroundBufs + 1 else s.lsciSwWorkaroundBufs
    ispDrv := s.ispDrv + 1
    curBurstQNum := a.curBurstQNum
    totalCQNum := a.totalCQNum } with hm
  have hbuf : m.lsciSwWorkaroundBufs = if patch then 1 else 0 := by
    rw [hm]
    dsimp only
    rw [hdown.lsci]
    cases patch with
    | false => simp
    | true => simp [hlsci rfl]
  have hrest := sameRest_alloc_buffers m a.curBurstQNum a.alloc
  obtain ⟨hall, hl, halive⟩ := alloc_buffers_ok (s := m) (b := a.curBurstQNum) hdown.virtual
    hdown.mdpBufs hdown.tpipeBufs hdown.queues rfl halloc
  have hrun : init_first patch s a = ({ (alloc_buffers m a.curBurstQNum a.alloc).1 with
      crzDrv := (alloc_buffers m a.curBurstQNum a.alloc).1.crzDrv + 1
      twinDrv := (alloc_buffers m a.curBurstQNum a.alloc).1.twinDrv + 1
      mInitCount := (alloc_buffers m a.curBurstQNum a.alloc).1.mInitCount + 1 }, MTRUE) := by
    simp only [init_first, himem, hisp, hcrz, htwin, hthread, Bool.true_eq_false, if_false,
      if_neg (not_lt.mpr hispInit), ← hm]
  rw [hrun]
  generalize (alloc_buffers m a.curBurstQNum a.alloc).1 = u at hrest hall hl halive
  refine ⟨rfl, hrest.users, ?_, ⟨?_, ?_, ?_, hrest.lsci.trans hbuf, ?_⟩, hl.trans hs.sound,
    halive.trans hs.alive, congrArg (· + 1) hrest.crzDrv, hrest.faults⟩
  · exact congrArg (· + 1) (hrest.mInitCount.trans hc)
  · exact hrest.imemDrv.trans (congrArg (· + 1) hdown.imemDrv)
  · exact hrest.ispDrv.trans (congrArg (· + 1) hdown.ispDrv)
  · exact congrArg (· + 1) (hrest.twinDrv.trans hdown.twinDrv)
  · exact ⟨hall.table, hall.mdpBufs, hall.tpipeBufs, hall.virtual, hall.queues⟩

/-- How a first `init` that does not succeed ends. -/
theorem init_first_fails {a : InitAnswer} (hs : Shared patch s) (hc : s.mInitCount = 0)
    (ha : ¬ a.Ok patch) :
    let r := init_first patch s a
    r.2 = MFALSE ∧ r.1.imemDrv = 1 ∧ r.1.mInitCount = 0 ∨
      r.2 ≠ MFALSE ∧ r.1.mInitCount = 0 ∨
      r.1.crashed = true ∨
      r.2 ≠ MFALSE ∧ r.1.mInitCount = 1 ∧ ¬ Up patch r.1 := by
  intro r
  have hminus : (-1 : ℤ) ≠ MFALSE := by decide
  have hplus : MTRUE ≠ MFALSE := by decide
  have hdown := hs.down hc
  set m : Shell ι := { s with
    imemDrv := s.imemDrv + 1
    lsciSwWorkaroundBufs :=
      if patch ∧ a.allocVirtBuf then s.lsciSwWorkaroundBufs + 1 else s.lsciSwWorkaroundBufs
    ispDrv := s.ispDrv + 1
    curBurstQNum := a.curBurstQNum
    totalCQNum := a.totalCQNum } with hm
  set u := (alloc_buffers m a.curBurstQNum a.alloc).1 with hu
  have hrest := sameRest_alloc_buffers m a.curBurstQNum a.alloc
  have hcount : u.mInitCount = 0 := hrest.mInitCount.trans hc
  simp only [r, init_first, ← hm, ← hu]
  split
  · exact Or.inr (Or.inl ⟨hminus, hc⟩)
  · next himem =>
    split
    · exact Or.inl ⟨rfl, congrArg (· + 1) hdown.imemDrv, hc⟩
    · next hisp =>
      split
      · next hneg => exact Or.inr (Or.inl ⟨Int.ne_of_lt hneg, hc⟩)
      · next hinit =>
        split
        · exact Or.inr (Or.inl ⟨hminus, hcount⟩)
        · next hcrz =>
          split
          · exact Or.inr (Or.inl ⟨hminus, hcount⟩)
          · next htwin =>
            split
            · exact Or.inr (Or.inl ⟨hminus, hcount⟩)
            · next hthread =>
              by_cases hcr : u.crashed = true
              · exact Or.inr (Or.inr (Or.inl hcr))
              refine Or.inr (Or.inr (Or.inr
                ⟨hplus, congrArg (· + 1) hcount, fun hup => ?_⟩))
              by_cases hlsci : patch = true → a.allocVirtBuf = true
              · have halloc : ¬ a.alloc.Ok a.curBurstQNum m.totalCQNum := fun halloc =>
                  ha ⟨eq_true_of_ne_false himem, hlsci, eq_true_of_ne_false hisp,
                    not_lt.mp hinit, halloc, eq_true_of_ne_false hcrz,
                    eq_true_of_ne_false htwin, eq_true_of_ne_false hthread⟩
                rcases alloc_buffers_fails (s := m) hdown.mdpBufs hdown.tpipeBufs rfl
                  (fun h => halloc h.1) with hcrash | hnot
                · exact hcr hcrash
                · exact hnot ⟨hup.allocated.table, hup.allocated.mdpBufs,
                    hup.allocated.tpipeBufs, hup.allocated.virtual, hup.allocated.queues⟩
              · rw [Classical.not_imp] at hlsci
                have hone : u.lsciSwWorkaroundBufs = if patch then 1 else 0 := hup.lsci
                rw [hu, hrest.lsci, hm] at hone
                simp [hlsci.1, hlsci.2, hdown.lsci] at hone

theorem shared_initial : Shared patch (initial : Shell ι) := by
  refine ⟨rfl, fun hpos => absurd hpos (Nat.lt_irrefl 0), fun _ => ?_, rfl, rfl⟩
  exact ⟨rfl, rfl, rfl, rfl, rfl, rfl, rfl, ⟨rfl, rfl, rfl⟩, fun _ => rfl⟩

variable [DecidableEq ι]

theorem shared_init {i : ι} {a : InitAnswer} (hs : Shared patch s)
    (h : step patch s (.init i a) = some t) :
    Completes patch s (.init i a) t ∧ Shared patch t ∧ Leaves patch s (.init i a) t ∨
      ¬ Completes patch s (.init i a) t ∧ ¬ Shared patch t := by
  rw [step, if_neg (by rw [hs.alive]; exact Bool.false_ne_true)] at h
  dsimp only at h
  split at h
  · exact absurd h (by simp)
  · next hi =>
    by_cases hc : s.mInitCount = 0
    · have hinit : init patch s a = init_first patch s a := if_neg (by omega)
      rw [hinit] at h
      by_cases ha : a.Ok patch
      · obtain ⟨hret, husers, hcount, hup, hsound, halive, hcrz, hfaults⟩ :=
          init_first_ok hs hc ha
        generalize init_first patch s a = r at h hret husers hcount hup hsound halive hcrz hfaults
        obtain ⟨u, ret⟩ := r
        dsimp only at h hret husers hcount hup hsound halive hcrz hfaults
        rw [if_neg (by rw [hret]; decide)] at h
        obtain rfl := Option.some.inj h
        refine Or.inl ⟨fun _ => ha, ⟨?_, fun _ => hup.counts _ _, fun hz => ?_, hsound, halive⟩,
          ?_, hfaults⟩
        · have hcard := hs.users
          dsimp only
          rw [husers, Finset.card_insert_of_notMem hi, hcard, hc, hcount]
        · dsimp only at hz
          omega
        · rw [if_pos hc]
          exact hcrz
      · refine Or.inr ⟨fun hcompletes => ha (hcompletes hc), fun ht => ?_⟩
        have hfails := init_first_fails hs hc ha
        generalize init_first patch s a = r at h hfails
        obtain ⟨u, ret⟩ := r
        dsimp only at h hfails
        obtain rfl := Option.some.inj h
        rcases hfails with ⟨hret, himem, hz⟩ | ⟨hret, hz⟩ | hcr | ⟨hret, hone, hnot⟩
        · rw [if_pos hret] at ht
          have hnone := (ht.down hz).imemDrv
          omega
        · rw [if_neg hret] at ht
          have hcard := ht.users
          have hpos := Finset.card_pos.mpr ⟨i, Finset.mem_insert_self i u.users⟩
          dsimp only at hcard
          omega
        · have halive := ht.alive
          split at halive
          · rw [hcr] at halive
            exact absurd halive.symm Bool.false_ne_true
          · dsimp only at halive
            rw [hcr] at halive
            exact absurd halive.symm Bool.false_ne_true
        · rw [if_neg hret] at ht
          have hup := ht.up (by dsimp only; omega)
          exact hnot (hup.counts u.mInitCount u.users)
    · have hinit : init patch s a = ({ s with mInitCount := s.mInitCount + 1 }, MTRUE) :=
        if_pos (by omega)
      rw [hinit] at h
      dsimp only at h
      rw [if_neg (by decide)] at h
      obtain rfl := Option.some.inj h
      have hup := hs.up (by omega)
      refine Or.inl ⟨fun hz => absurd hz hc, ⟨?_, fun _ => hup.counts _ _, fun hz => ?_, hs.sound,
        hs.alive⟩, ?_, rfl⟩
      · dsimp only
        rw [Finset.card_insert_of_notMem hi, hs.users]
      · dsimp only at hz
        omega
      · rw [if_neg hc]

omit [DecidableEq ι] in
theorem down_users_iff (us : Finset ι) : Down { s with users := us } ↔ Down s :=
  ⟨fun h => ⟨h.imemDrv, h.ispDrv, h.twinDrv, h.lsci, h.table, h.mdpBufs, h.tpipeBufs, h.virtual,
      h.queues⟩,
    fun h => ⟨h.imemDrv, h.ispDrv, h.twinDrv, h.lsci, h.table, h.mdpBufs, h.tpipeBufs, h.virtual,
      h.queues⟩⟩

omit [DecidableEq ι] in
/-- How a last `uninit` ends. -/
theorem uninit_last (a : UninitAnswer) (hs : Shared patch s) (hlast : s.mInitCount = 1) :
    (uninit s a).mInitCount = 0 ∧ (uninit s a).users = s.users ∧
      (((∀ cq < (s.totalCQNum : ℕ), 0 ≤ a.virt_uninit cq) ∧ 0 ≤ a.ispDrv_uninit) ∧
          Down (uninit s a) ∧ (uninit s a).mallocs.faults = 0 ∧ (uninit s a).crashed = false ∧
          (uninit s a).crzDrv = s.crzDrv ∧
          (uninit s a).faults = (if patch = false then s.faults + 1 else s.faults) ∨
        ¬ ((∀ cq < (s.totalCQNum : ℕ), 0 ≤ a.virt_uninit cq) ∧ 0 ≤ a.ispDrv_uninit) ∧
          ¬ Down (uninit s a)) := by
  have hup := hs.up (by omega)
  set m : Shell ι := { s with
    mInitCount := s.mInitCount - 1
    lsciSwWorkaroundBufs := s.lsciSwWorkaroundBufs - 1
    faults := if s.lsciSwWorkaroundBufs = 0 then s.faults + 1 else s.faults } with hm
  have hbufs : m.lsciSwWorkaroundBufs = 0 := by
    rw [hm]
    dsimp only
    rw [hup.lsci]
    split
    · rfl
    · rfl
  have hfaults : m.faults = if patch = false then s.faults + 1 else s.faults := by
    rw [hm]
    dsimp only
    rw [hup.lsci]
    cases patch with
    | false => simp
    | true => simp
  have hall : Allocated m := ⟨hup.allocated.table, hup.allocated.mdpBufs,
    hup.allocated.tpipeBufs, hup.allocated.virtual, hup.allocated.queues⟩
  obtain ⟨hfreed, hend⟩ := free_buffers_up a.virt_uninit hall
  have huninit : uninit s a =
      let f := free_buffers m m.curBurstQNum a.virt_uninit
      if a.ispDrv_uninit < 0 then { f with imemDrv := f.imemDrv - 1, twinDrv := f.twinDrv - 1 }
      else { f with
        imemDrv := f.imemDrv - 1
        twinDrv := f.twinDrv - 1
        ispDrv := f.ispDrv - 1 } := by
    rw [uninit, if_neg (by omega)]
    exact if_neg (by dsimp only; omega)
  rw [huninit]
  dsimp only
  generalize free_buffers m m.curBurstQNum a.virt_uninit = f at hfreed hend
  have hzero : f.mInitCount = 0 := by
    rw [hfreed.mInitCount, hm]
    dsimp only
    omega
  by_cases hisp : a.ispDrv_uninit < 0
  · rw [if_pos hisp]
    refine ⟨hzero, hfreed.users, Or.inr ⟨fun hok => absurd hok.2 (not_le.mpr hisp), ?_⟩⟩
    intro hdown
    have hnone : f.ispDrv = 0 := hdown.ispDrv
    rw [hfreed.ispDrv] at hnone
    exact absurd (hup.ispDrv.symm.trans hnone) Nat.one_ne_zero
  · rw [if_neg hisp]
    refine ⟨hzero, hfreed.users, ?_⟩
    rcases hend with ⟨hv, hnull, hl, hidle⟩ | ⟨hv, hbusy⟩
    · refine Or.inl ⟨⟨hv, not_lt.mp hisp⟩, ⟨?_, ?_, ?_, hfreed.lsci.trans hbufs, hfreed.table,
        hfreed.mdpBufs, hfreed.tpipeBufs, hnull, hidle⟩, hl.trans hs.sound,
        hfreed.crashed.trans hs.alive, hfreed.crzDrv, hfreed.faults.trans hfaults⟩
      · exact congrArg (· - 1) (hfreed.imemDrv.trans hup.imemDrv)
      · exact congrArg (· - 1) (hfreed.ispDrv.trans hup.ispDrv)
      · exact congrArg (· - 1) (hfreed.twinDrv.trans hup.twinDrv)
    · exact Or.inr ⟨fun hok => hv hok.1, fun hdown => hbusy hdown.queues⟩

theorem shared_uninit {i : ι} {a : UninitAnswer} (hs : Shared patch s)
    (h : step patch s (.uninit i a) = some t) :
    Completes patch s (.uninit i a) t ∧ Shared patch t ∧ Leaves patch s (.uninit i a) t ∨
      ¬ Completes patch s (.uninit i a) t ∧ ¬ Shared patch t := by
  rw [step, if_neg (by rw [hs.alive]; exact Bool.false_ne_true)] at h
  dsimp only at h
  split at h
  · next hi =>
    have hpos : 0 < s.mInitCount := by
      rw [← hs.users]
      exact Finset.card_pos.mpr ⟨i, hi⟩
    have hcard : (s.users.erase i).card = s.mInitCount - 1 := by
      rw [Finset.card_erase_of_mem hi, hs.users]
    by_cases hlast : s.mInitCount = 1
    · obtain ⟨hzero, husers, hend⟩ := uninit_last a hs hlast
      generalize uninit s a = u at h hzero husers hend
      obtain rfl := Option.some.inj h
      rcases hend with ⟨hok, hdown, hl, halive, hcrz, hfaults⟩ | ⟨hnot, hdown⟩
      · refine Or.inl ⟨fun _ => hok, ⟨?_, fun hz => absurd hzero (Nat.ne_of_gt hz),
          fun _ => (down_users_iff _).mpr hdown, hl, halive⟩, hcrz, ?_⟩
        · dsimp only
          rw [husers, hcard, hzero, hlast]
        · dsimp only
          rw [hfaults]
          simp [hlast]
      · exact Or.inr ⟨fun hcompletes => hnot (hcompletes hlast),
          fun ht => hdown ((down_users_iff _).mp (ht.down hzero))⟩
    · have huninit : uninit s a = { s with mInitCount := s.mInitCount - 1 } := by
        rw [uninit, if_neg (by omega)]
        exact if_pos (by dsimp only; omega)
      rw [huninit] at h
      obtain rfl := Option.some.inj h
      refine Or.inl ⟨fun hone => absurd hone hlast,
        ⟨hcard, fun _ => (hs.up hpos).counts _ _, fun hz => ?_, hs.sound, hs.alive⟩, rfl, ?_⟩
      · dsimp only at hz
        omega
      · rw [if_neg (fun hboth => hlast hboth.1)]
  · exact absurd h (by simp)

theorem shared_update {n : ℕ} {a : UpdateAnswer} (hs : Shared patch s)
    (h : step patch s (.update n a) = some t) :
    Completes patch s (.update n a) t ∧ Shared patch t ∧ Leaves patch s (.update n a) t ∨
      ¬ Completes patch s (.update n a) t ∧ ¬ Shared patch t := by
  rw [step, if_neg (by rw [hs.alive]; exact Bool.false_ne_true)] at h
  split at h
  · next hpos =>
    have hup := hs.up hpos
    by_cases hsame : n = s.curBurstQNum
    · rw [updateBurstQueueNum, if_pos hsame] at h
      obtain rfl := Option.some.inj h
      exact Or.inl ⟨fun hne => absurd hsame hne, hs, rfl, rfl⟩
    by_cases hdealloc : a.cqTable_dealloc = false
    · rw [updateBurstQueueNum, if_neg hsame, if_pos hdealloc] at h
      obtain rfl := Option.some.inj h
      refine Or.inl ⟨fun _ htrue => ?_, hs, rfl, rfl⟩
      rw [hdealloc] at htrue
      exact absurd htrue Bool.false_ne_true
    have hdealloc' : a.cqTable_dealloc = true := eq_true_of_ne_false hdealloc
    obtain ⟨hfreed, hend⟩ := free_buffers_up a.virt_uninit hup.allocated
    rw [updateBurstQueueNum, if_neg hsame, if_neg hdealloc] at h
    dsimp only at h
    generalize free_buffers s s.curBurstQNum a.virt_uninit = f at h hfreed hend
    by_cases halloc : a.cqTable_alloc = false
    · rw [if_pos halloc] at h
      obtain rfl := Option.some.inj h
      refine Or.inr ⟨fun hcompletes => ?_, fun ht => ?_⟩
      · have htrue := (hcompletes hsame hdealloc').2.1
        rw [halloc] at htrue
        exact absurd htrue Bool.false_ne_true
      · have htable := (ht.up (hfreed.mInitCount ▸ hpos)).allocated.table
        exact absurd (hfreed.table.symm.trans htable) Bool.false_ne_true
    rw [if_neg halloc] at h
    obtain rfl := Option.some.inj h
    set m : Shell ι := { f with curBurstQNum := n, totalCQNum := a.totalCQNum } with hm
    have hrest := sameRest_alloc_buffers m n a.alloc
    have hcount : (alloc_buffers m n a.alloc).1.mInitCount = s.mInitCount :=
      hrest.mInitCount.trans hfreed.mInitCount
    by_cases hok : a.alloc.Ok n a.totalCQNum ∧ Idle f.queues
    · rcases hend with ⟨hv, hnone, hl, -⟩ | ⟨-, hbusy⟩
      · obtain ⟨hall, hl', halive⟩ := alloc_buffers_ok (s := m) hnone hfreed.mdpBufs
          hfreed.tpipeBufs hok.2 rfl hok.1
        have hset : SameRest f m := ⟨rfl, rfl, rfl, rfl, rfl, rfl, rfl, rfl⟩
        have hup' := hup.of_sameRest ((hfreed.toSameRest.trans hset).trans hrest) hall
        refine Or.inl ⟨fun _ _ => ⟨hv, eq_true_of_ne_false halloc, hok.1⟩,
          ⟨?_, fun _ => hup', fun hz => ?_, hl'.trans (hl.trans hs.sound),
            halive.trans (hfreed.crashed.trans hs.alive)⟩,
          hrest.crzDrv.trans hfreed.crzDrv, hrest.faults.trans hfreed.faults⟩
        · rw [hrest.users, hcount]
          exact (congrArg Finset.card hfreed.users).trans hs.users
        · omega
      · exact absurd hok.2 hbusy
    · refine Or.inr ⟨fun hcompletes => ?_, fun hshared => ?_⟩
      · obtain ⟨hv, -, hall⟩ := hcompletes hsame hdealloc'
        rcases hend with ⟨-, -, -, hidle⟩ | ⟨hnot, -⟩
        · exact hok ⟨hall, hidle⟩
        · exact hnot hv
      · rcases alloc_buffers_fails (s := m) hfreed.mdpBufs hfreed.tpipeBufs rfl hok with hcr | hnot
        · rw [hshared.alive] at hcr
          exact absurd hcr Bool.false_ne_true
        · exact hnot (hshared.up (by omega)).allocated
  · exact absurd h (by simp)

theorem shared_step {e : Event ι} (hs : Shared patch s) (h : step patch s e = some t) :
    Completes patch s e t ∧ Shared patch t ∧ Leaves patch s e t ∨
      ¬ Completes patch s e t ∧ ¬ Shared patch t := by
  cases e with
  | init i a => exact shared_init hs h
  | uninit i a => exact shared_uninit hs h
  | update n a => exact shared_update hs h

/-- With a burst number but no table, only a crash changes either. -/
theorem lost_step {n : ℕ} {e : Event ι} (hn : 0 < n) (htable : s.table = false)
    (hcur : s.curBurstQNum = n) (hpos : 0 < s.mInitCount) (h : step patch s e = some t) :
    t.crashed = true ∨ t.table = false ∧ t.curBurstQNum = n ∧ 0 < t.mInitCount := by
  unfold step at h
  split at h
  · exact absurd h (by simp)
  cases e with
  | init i a =>
    dsimp only at h
    split at h
    · exact absurd h (by simp)
    · rw [init, if_pos hpos] at h
      dsimp only at h
      rw [if_neg (by decide)] at h
      obtain rfl := Option.some.inj h
      exact Or.inr ⟨htable, hcur, Nat.succ_pos _⟩
  | uninit i a =>
    dsimp only at h
    split at h
    · rw [uninit, if_neg (by omega)] at h
      dsimp only at h
      by_cases hmore : 0 < s.mInitCount - 1
      · rw [if_pos hmore] at h
        obtain rfl := Option.some.inj h
        exact Or.inr ⟨htable, hcur, hmore⟩
      · have hlost : ∀ u : Shell ι, u.table = false →
            free_buffers u s.curBurstQNum a.virt_uninit = { u with crashed := true } :=
          fun u hu => free_buffers_lost hu (by omega)
        rw [if_neg hmore, hlost _ (by exact htable)] at h
        left
        by_cases hisp : a.ispDrv_uninit < 0
        · rw [if_pos hisp] at h
          obtain rfl := Option.some.inj h
          rfl
        · rw [if_neg hisp] at h
          obtain rfl := Option.some.inj h
          rfl
    · exact absurd h (by simp)
  | update m a =>
    dsimp only at h
    rw [updateBurstQueueNum] at h
    split at h
    · obtain rfl := Option.some.inj h
      exact Or.inr ⟨htable, hcur, hpos⟩
    · split at h
      · obtain rfl := Option.some.inj h
        exact Or.inr ⟨htable, hcur, hpos⟩
      · rw [free_buffers_lost htable (by omega)] at h
        left
        by_cases halloc : a.cqTable_alloc = false
        · rw [if_pos halloc] at h
          obtain rfl := Option.some.inj h
          rfl
        · rw [if_neg halloc] at h
          obtain rfl := Option.some.inj h
          exact alloc_buffers_crashed rfl

/-- When the driver does not give the new command queues after the old ones are gone, the
update fails, and from then on, up to a crash, there is no table, although the same update
is answered with success. -/
theorem table_lost {es : List (Event ι)} (hrun : exec (step patch) initial es = some s)
    (hall : AllSteps (step patch) (Completes patch) initial es) (hpos : 0 < s.mInitCount)
    {n : ℕ} {a : UpdateAnswer} (hn : 0 < n) (hne : n ≠ s.curBurstQNum)
    (hdealloc : a.cqTable_dealloc = true) (halloc : a.cqTable_alloc = false) :
    (updateBurstQueueNum s n a).2 = MFALSE ∧
      ∀ es' t, exec (step patch) s (.update n a :: es') = some t →
        t.crashed = true ∨ t.table = false ∧ 0 < t.mInitCount ∧
          ∀ a', updateBurstQueueNum t n a' = (t, MTRUE) := by
  have hs : Shared patch s := by
    refine exec_invariant_of_allSteps (step patch) (I := Shared patch) (fun s e t hs h hc => ?_)
      shared_initial hall hrun
    rcases shared_step hs h with ⟨-, ht, -⟩ | ⟨hnot, -⟩
    · exact ht
    · exact absurd hc hnot
  have hup := hs.up hpos
  obtain ⟨hfreed, -⟩ := free_buffers_up a.virt_uninit hup.allocated
  have hupdate : updateBurstQueueNum s n a = ({ free_buffers s s.curBurstQNum a.virt_uninit with
      curBurstQNum := n
      totalCQNum := a.totalCQNum }, MFALSE) := by
    rw [updateBurstQueueNum, if_neg hne, if_neg (by rw [hdealloc]; simp), if_pos halloc]
  refine ⟨by rw [hupdate], fun es' t hrun' => ?_⟩
  obtain ⟨u, hu, hrest⟩ := (exec_cons_eq_some (step patch)).mp hrun'
  have hlost : u.table = false ∧ u.curBurstQNum = n ∧ 0 < u.mInitCount := by
    simp only [step, hs.alive, Bool.false_eq_true, if_false, if_pos hpos, hupdate,
      Option.some.injEq] at hu
    rw [← hu]
    exact ⟨hfreed.table, rfl, hfreed.mInitCount ▸ hpos⟩
  have hkept := exec_invariant (step patch) (I := fun u => u.crashed = true ∨
    u.table = false ∧ u.curBurstQNum = n ∧ 0 < u.mInitCount) (fun u e t hu h => ?_)
    (Or.inr hlost) hrest
  · rcases hkept with hcrashed | ⟨htable, hcur, hcount⟩
    · exact Or.inl hcrashed
    · exact Or.inr ⟨htable, hcount, fun a' => if_pos hcur.symm⟩
  · rcases hu with hcrashed | ⟨htable, hcur, hcount⟩
    · simp [step, hcrashed] at h
    · exact lost_step hn htable hcur hcount h

end Steps

/-- One user, and an update from one burst queue to two. -/
theorem table_lost_two :
    let queue : QueueAnswer := ⟨true, 1, true⟩
    let good : InitAnswer :=
      ⟨true, true, true, 0, 1, 4, ⟨true, fun _ => true, true, true, fun _ => queue⟩, true, true,
        true⟩
    let bad : UpdateAnswer :=
      ⟨true, fun _ => 0, 8, false, ⟨true, fun _ => true, true, true, fun _ => queue⟩⟩
    ∃ s : Shell ℕ, exec (step true) initial [.init 0 good] = some s ∧
      ∀ es t, exec (step true) s (.update 2 bad :: es) = some t → t.crashed = true ∨
        t.table = false ∧ 0 < t.mInitCount ∧ ∀ a, updateBurstQueueNum t 2 a = (t, MTRUE) := by
  intro queue good bad
  refine ⟨_, rfl, ?_⟩
  have hall : AllSteps (step true) (Completes true) (initial : Shell ℕ) [.init 0 good] := by
    intro t _
    exact ⟨fun _ => ⟨rfl, fun _ => rfl, rfl, Int.le_refl 0,
      ⟨rfl, fun _ _ => rfl, rfl, rfl, fun _ _ => ⟨rfl, Int.zero_le_ofNat 1, rfl⟩⟩, rfl, rfl,
      rfl⟩, trivial⟩
  exact (@table_lost ℕ true _ _ [.init 0 good] rfl hall (by decide) 2 bad (by decide) (by decide)
    rfl rfl).2

end Fixed.IspShell
