import Mathlib.Data.Nat.Basic
import Mathlib.Logic.Function.Basic
import Mathlib.Tactic.Common
import Mathlib.Tactic.Ring

/-!
The table `gpMdpMgrCfgData[burstQue][p2Cq][dupCq]` that `controlBurstQueBuffer` of
`isp_function.cpp` lays out in one buffer: the pointers to the rows, the rows of pointers
to the configurations, and the configurations. Read through its two levels of pointers
the table has a cell of its own for each index, behind all pointers. All cells lie in the
buffer exactly if the size that is asked for does not exceed 32 bits.
-/
namespace Fixed.BurstTables

structure Platform where
  ISP_DRV_P2_CQ_NUM : ℕ
  ISP_DRV_P2_CQ_DUPLICATION_NUM : ℕ
  /-- `sizeof(MDPMGR_CFG_STRUCT)` -/
  cfg : ℕ
  /-- The size of a pointer. -/
  ptr : ℕ
  ptr_pos : 0 < ptr

abbrev Memory := ℕ → ℕ

variable (p : Platform)

def queue : ℕ := p.ISP_DRV_P2_CQ_DUPLICATION_NUM * p.cfg

/-- The size of the buffer before it is stored in a `MUINT32`. -/
def wholeSize (burstQueueNum : ℕ) : ℕ :=
  burstQueueNum * p.ptr + burstQueueNum * p.ISP_DRV_P2_CQ_NUM * p.ptr +
    burstQueueNum * p.ISP_DRV_P2_CQ_NUM * p.ISP_DRV_P2_CQ_DUPLICATION_NUM * p.cfg + (7 + 1) + 0x100

def size (burstQueueNum : ℕ) : ℕ := wholeSize p burstQueueNum % 2 ^ 32

def gpMdpMgrCfgData (virtAddr : ℕ) : ℕ := (virtAddr + 7 + 0x100) / 8 * 8

/-- The loop over `j` with `r` rounds to go; `row` is the address of `gpMdpMgrCfgData[i]`. -/
def fill_row (row : ℕ) : ℕ → ℕ → Memory → ℕ → Memory × ℕ
  | 0, _, m, pDataLayer2 => (m, pDataLayer2)
  | r + 1, j, m, pDataLayer2 =>
    fill_row row r (j + 1) (Function.update m (m row + j * p.ptr) pDataLayer2)
      (pDataLayer2 + queue p)

def fill (data : ℕ) : ℕ → ℕ → Memory → ℕ → ℕ → Memory
  | 0, _, m, _, _ => m
  | r + 1, i, m, pDataLayer1, pDataLayer2 =>
    match fill_row p (data + i * p.ptr) p.ISP_DRV_P2_CQ_NUM 0
        (Function.update m (data + i * p.ptr) pDataLayer1) pDataLayer2 with
    | (m, pDataLayer2) =>
      fill data r (i + 1) m (pDataLayer1 + p.ISP_DRV_P2_CQ_NUM * p.ptr) pDataLayer2

def layOut (virtAddr burstQueueNum : ℕ) (m : Memory) : Memory :=
  let data := gpMdpMgrCfgData virtAddr
  fill p data burstQueueNum 0 m (data + burstQueueNum * p.ptr)
    (data + (burstQueueNum + p.ISP_DRV_P2_CQ_NUM * burstQueueNum) * p.ptr)

def cell (m : Memory) (data i j k : ℕ) : ℕ := m (m (data + i * p.ptr) + j * p.ptr) + k * p.cfg

def Index (burstQueueNum i j k : ℕ) : Prop :=
  i < burstQueueNum ∧ j < p.ISP_DRV_P2_CQ_NUM ∧ k < p.ISP_DRV_P2_CQ_DUPLICATION_NUM

section Layout

variable {p} {data b : ℕ}

theorem slot_inj {t t' : ℕ} (h : data + t * p.ptr = data + t' * p.ptr) : t = t' :=
  Nat.eq_of_mul_eq_mul_right p.ptr_pos (Nat.add_left_cancel h)

/-- One row: its pointers go up by a queue each, and nothing else changes. -/
theorem fill_row_spec {row first r j d : ℕ} {m : Memory} (hrow : m row = first)
    (hout : ∀ l, row ≠ first + l * p.ptr) :
    (fill_row p row r j m d).2 = d + r * queue p ∧
      (∀ l < r, (fill_row p row r j m d).1 (first + (j + l) * p.ptr) = d + l * queue p) ∧
      ∀ a, (∀ l < r, a ≠ first + (j + l) * p.ptr) → (fill_row p row r j m d).1 a = m a := by
  induction r generalizing j m d with
  | zero =>
    refine ⟨?_, fun l hl => absurd hl (Nat.not_lt_zero l), fun a _ => rfl⟩
    rw [fill_row, Nat.zero_mul, Nat.add_zero]
  | succ r ih =>
    have hkept : Function.update m (m row + j * p.ptr) d row = first := by
      rw [hrow, Function.update_of_ne (hout j), hrow]
    obtain ⟨hnext, hset, hframe⟩ := ih (j := j + 1) (d := d + queue p) hkept
    rw [fill_row]
    refine ⟨?_, ?_, ?_⟩
    · rw [hnext]
      ring
    · intro l hl
      rcases l with _ | l
      · rw [hframe, hrow, Nat.add_zero, Function.update_self, Nat.zero_mul, Nat.add_zero]
        intro l _ heq
        have := slot_inj heq
        omega
      · have hl := hset l (by omega)
        rw [show j + (l + 1) = j + 1 + l by omega, hl]
        ring
    · intro a ha
      rw [hframe, hrow, Function.update_of_ne]
      · exact ha 0 (Nat.succ_pos r)
      · intro l hl
        have := ha (l + 1) (by omega)
        rwa [show j + 1 + l = j + (l + 1) by omega]

/-- What the table holds for row `l`, when the rows begin behind `b` pointers and the
configurations at `d`. -/
structure Row (p : Platform) (data b d l : ℕ) (m : Memory) : Prop where
  row : m (data + l * p.ptr) = data + (b + l * p.ISP_DRV_P2_CQ_NUM) * p.ptr
  queues : ∀ j < p.ISP_DRV_P2_CQ_NUM,
    m (data + (b + l * p.ISP_DRV_P2_CQ_NUM + j) * p.ptr) =
      d + (l * p.ISP_DRV_P2_CQ_NUM + j) * queue p

theorem fill_spec {r i d : ℕ} {m : Memory} (hb : i + r = b)
    (hbefore : ∀ l < i, Row p data b d l m) :
    ∀ l < b, Row p data b d l (fill p data r i m
      (data + (b + i * p.ISP_DRV_P2_CQ_NUM) * p.ptr)
      (d + i * p.ISP_DRV_P2_CQ_NUM * queue p)) := by
  induction r generalizing i m with
  | zero =>
    intro l hl
    exact hbefore l (by omega)
  | succ r ih =>
    set N := p.ISP_DRV_P2_CQ_NUM with hN
    set m₁ := Function.update m (data + i * p.ptr) (data + (b + i * N) * p.ptr) with hm₁
    have hslot : ∀ l, data + (b + i * N) * p.ptr + l * p.ptr = data + (b + i * N + l) * p.ptr := by
      intro l
      ring
    have hrow : m₁ (data + i * p.ptr) = data + (b + i * N) * p.ptr := Function.update_self _ _ _
    have hout : ∀ l, data + i * p.ptr ≠ data + (b + i * N) * p.ptr + l * p.ptr := by
      intro l heq
      rw [hslot] at heq
      have := slot_inj heq
      omega
    obtain ⟨hnext, hset, hframe⟩ :=
      fill_row_spec (r := N) (j := 0) (d := d + i * N * queue p) hrow hout
    rw [fill]
    generalize fill_row p (data + i * p.ptr) N 0 m₁ (d + i * N * queue p) = u at hnext hset hframe ⊢
    obtain ⟨m₂, d₂⟩ := u
    dsimp only at hnext hset hframe ⊢
    have hadd₁ : data + (b + i * N) * p.ptr + N * p.ptr = data + (b + (i + 1) * N) * p.ptr := by
      ring
    have hadd₂ : d₂ = d + (i + 1) * N * queue p := by
      rw [hnext]
      ring
    rw [hadd₁, hadd₂]
    -- the slots that row `i` leaves alone
    have hkept : ∀ t, t ≠ i → (t < b ∨ t < b + i * N) → m₂ (data + t * p.ptr) =
        m (data + t * p.ptr) := by
      intro t hne hlt
      have hother : data + t * p.ptr ≠ data + i * p.ptr := fun heq => hne (slot_inj heq)
      rw [hframe, hm₁, Function.update_of_ne hother]
      intro l hl heq
      rw [Nat.zero_add, hslot] at heq
      have := slot_inj heq
      omega
    refine ih (by omega) fun l hl => ?_
    rcases Nat.lt_succ_iff_lt_or_eq.mp hl with hlt | rfl
    · obtain ⟨hrow', hqueues⟩ := hbefore l hlt
      have hbelow : (l + 1) * N ≤ i * N := Nat.mul_le_mul_right N hlt
      rw [Nat.add_mul, Nat.one_mul] at hbelow
      refine ⟨?_, fun j hj => ?_⟩
      · rw [hkept l (by omega) (by omega)]
        exact hrow'
      · have hj : j < N := hj
        rw [hkept (b + l * N + j) (by omega) (by omega)]
        exact hqueues j hj
    · refine ⟨?_, fun j hj => ?_⟩
      · rw [hframe, hrow]
        intro j hj heq
        exact hout _ heq
      · have hj := hset j hj
        rw [Nat.zero_add, hslot] at hj
        rw [hj]
        ring

/-- Every row of the finished table. -/
theorem layOut_row (virtAddr : ℕ) (m : Memory) {l : ℕ} (hl : l < b) :
    Row p (gpMdpMgrCfgData virtAddr) b (gpMdpMgrCfgData virtAddr +
      (b + p.ISP_DRV_P2_CQ_NUM * b) * p.ptr) l (layOut p virtAddr b m) := by
  have hspec := @fill_spec p (gpMdpMgrCfgData virtAddr) b b 0 (gpMdpMgrCfgData virtAddr +
      (b + p.ISP_DRV_P2_CQ_NUM * b) * p.ptr) m (Nat.zero_add b)
    (fun l hl => absurd hl (Nat.not_lt_zero l)) l hl
  rw [Nat.zero_mul, Nat.zero_mul, Nat.add_zero, Nat.add_zero] at hspec
  exact hspec

/-- The number of a cell in the order of the addresses. -/
def number (p : Platform) (i j k : ℕ) : ℕ :=
  (i * p.ISP_DRV_P2_CQ_NUM + j) * p.ISP_DRV_P2_CQ_DUPLICATION_NUM + k

/-- The cells follow one another behind the pointers. -/
theorem cell_layOut (virtAddr : ℕ) (m : Memory) {i j : ℕ} (hi : i < b)
    (hj : j < p.ISP_DRV_P2_CQ_NUM) (k : ℕ) :
    cell p (layOut p virtAddr b m) (gpMdpMgrCfgData virtAddr) i j k =
      gpMdpMgrCfgData virtAddr + (b + p.ISP_DRV_P2_CQ_NUM * b) * p.ptr +
        number p i j k * p.cfg := by
  obtain ⟨hrow, hqueues⟩ := @layOut_row p b virtAddr m i hi
  have hadd : gpMdpMgrCfgData virtAddr + (b + i * p.ISP_DRV_P2_CQ_NUM) * p.ptr + j * p.ptr =
      gpMdpMgrCfgData virtAddr + (b + i * p.ISP_DRV_P2_CQ_NUM + j) * p.ptr := by
    ring
  rw [cell, hrow, hadd, hqueues j hj, number, queue]
  ring

theorem digits_inj {n q q' x x' : ℕ} (hx : x < n) (hx' : x' < n) (h : q * n + x = q' * n + x') :
    q = q' ∧ x = x' := by
  have hpos : 0 < n := by omega
  have hdiv : (q * n + x) / n = (q' * n + x') / n := by rw [h]
  rw [Nat.mul_comm q, Nat.mul_comm q', Nat.mul_add_div hpos, Nat.mul_add_div hpos,
    Nat.div_eq_of_lt hx, Nat.div_eq_of_lt hx'] at hdiv
  have hq : q = q' := by omega
  rw [hq] at h
  exact ⟨hq, by omega⟩

theorem number_inj {i j k i' j' k' : ℕ} (h : Index p b i j k) (h' : Index p b i' j' k')
    (heq : number p i j k = number p i' j' k') : i = i' ∧ j = j' ∧ k = k' := by
  obtain ⟨hrow, hk⟩ := digits_inj h.2.2 h'.2.2 heq
  obtain ⟨hi, hj⟩ := digits_inj h.2.1 h'.2.1 hrow
  exact ⟨hi, hj, hk⟩

theorem digits_lt {n q x c : ℕ} (hq : q < c) (hx : x < n) : q * n + x < c * n := by
  have hle : (q + 1) * n ≤ c * n := Nat.mul_le_mul_right n hq
  rw [Nat.add_mul, Nat.one_mul] at hle
  omega

theorem number_lt {i j k : ℕ} (h : Index p b i j k) :
    number p i j k < b * p.ISP_DRV_P2_CQ_NUM * p.ISP_DRV_P2_CQ_DUPLICATION_NUM :=
  digits_lt (digits_lt h.1 h.2.1) h.2.2

/-- The pointers and the configurations take all of the size but the reserve. -/
theorem wholeSize_eq (p : Platform) (b : ℕ) :
    wholeSize p b = (b + p.ISP_DRV_P2_CQ_NUM * b) * p.ptr +
      b * p.ISP_DRV_P2_CQ_NUM * p.ISP_DRV_P2_CQ_DUPLICATION_NUM * p.cfg + 0x108 := by
  unfold wholeSize
  ring

theorem number_last (hb : 0 < b) (hN : 0 < p.ISP_DRV_P2_CQ_NUM)
    (hD : 0 < p.ISP_DRV_P2_CQ_DUPLICATION_NUM) :
    number p (b - 1) (p.ISP_DRV_P2_CQ_NUM - 1) (p.ISP_DRV_P2_CQ_DUPLICATION_NUM - 1) + 1 =
      b * p.ISP_DRV_P2_CQ_NUM * p.ISP_DRV_P2_CQ_DUPLICATION_NUM := by
  unfold number
  generalize p.ISP_DRV_P2_CQ_NUM = N at hN ⊢
  generalize p.ISP_DRV_P2_CQ_DUPLICATION_NUM = D at hD ⊢
  obtain ⟨b, rfl⟩ := Nat.exists_eq_succ_of_ne_zero (Nat.ne_of_gt hb)
  obtain ⟨N, rfl⟩ := Nat.exists_eq_succ_of_ne_zero (Nat.ne_of_gt hN)
  obtain ⟨D, rfl⟩ := Nat.exists_eq_succ_of_ne_zero (Nat.ne_of_gt hD)
  simp only [Nat.succ_eq_add_one, Nat.add_sub_cancel]
  ring

/-- Cells of different indices do not overlap. -/
theorem cells_disjoint (virtAddr : ℕ) (m : Memory) {i j k i' j' k' : ℕ} (h : Index p b i j k)
    (h' : Index p b i' j' k') (hne : (i, j, k) ≠ (i', j', k')) :
    let c := cell p (layOut p virtAddr b m) (gpMdpMgrCfgData virtAddr)
    c i j k + p.cfg ≤ c i' j' k' ∨ c i' j' k' + p.cfg ≤ c i j k := by
  intro c
  have hcell : c i j k = _ := cell_layOut virtAddr m h.1 h.2.1 k
  have hcell' : c i' j' k' = _ := cell_layOut virtAddr m h'.1 h'.2.1 k'
  rcases Nat.lt_trichotomy (number p i j k) (number p i' j' k') with hlt | heq | hgt
  · have hle := Nat.mul_le_mul_right p.cfg hlt
    rw [Nat.succ_mul] at hle
    left
    omega
  · obtain ⟨rfl, rfl, rfl⟩ := number_inj h h' heq
    exact absurd rfl hne
  · have hle := Nat.mul_le_mul_right p.cfg hgt
    rw [Nat.succ_mul] at hle
    right
    omega

/-- All cells end within the buffer exactly if its size was not cut. -/
theorem cells_inside (virtAddr : ℕ) (m : Memory) (hb : 0 < b) (hN : 0 < p.ISP_DRV_P2_CQ_NUM)
    (hD : 0 < p.ISP_DRV_P2_CQ_DUPLICATION_NUM) :
    (∀ i j k, Index p b i j k →
      cell p (layOut p virtAddr b m) (gpMdpMgrCfgData virtAddr) i j k + p.cfg ≤
        virtAddr + size p b) ↔ wholeSize p b < 2 ^ 32 := by
  have hwhole := wholeSize_eq p b
  constructor
  · intro hall
    have hlast : Index p b (b - 1) (p.ISP_DRV_P2_CQ_NUM - 1)
        (p.ISP_DRV_P2_CQ_DUPLICATION_NUM - 1) := ⟨by omega, by omega, by omega⟩
    have hend := hall _ _ _ hlast
    rw [cell_layOut virtAddr m hlast.1 hlast.2.1, Nat.add_assoc, ← Nat.succ_mul,
      Nat.succ_eq_add_one, number_last hb hN hD] at hend
    by_contra hbig
    have hcut : size p b ≤ wholeSize p b - 2 ^ 32 := by
      rw [size, Nat.mod_eq_sub_mod (Nat.le_of_not_lt hbig)]
      exact Nat.mod_le _ _
    unfold gpMdpMgrCfgData at hend
    omega
  · intro hlt i j k h
    have hnumber := Nat.mul_le_mul_right p.cfg (number_lt h)
    rw [Nat.succ_mul] at hnumber
    rw [cell_layOut virtAddr m h.1 h.2.1, size, Nat.mod_eq_of_lt hlt]
    unfold gpMdpMgrCfgData
    omega

/-- The finished table: its cells do not overlap one another, they come behind all
pointers, and they end within the buffer exactly if its size fits 32 bits. -/
theorem table_laid_out (virtAddr : ℕ) (m : Memory) (hb : 0 < b)
    (hN : 0 < p.ISP_DRV_P2_CQ_NUM) (hD : 0 < p.ISP_DRV_P2_CQ_DUPLICATION_NUM) :
    let data := gpMdpMgrCfgData virtAddr
    let c := cell p (layOut p virtAddr b m) data
    (∀ i j k i' j' k', Index p b i j k → Index p b i' j' k' → (i, j, k) ≠ (i', j', k') →
        c i j k + p.cfg ≤ c i' j' k' ∨ c i' j' k' + p.cfg ≤ c i j k) ∧
      virtAddr ≤ data ∧
      (∀ i j k, Index p b i j k → data + (b + b * p.ISP_DRV_P2_CQ_NUM) * p.ptr ≤ c i j k) ∧
      ((∀ i j k, Index p b i j k → c i j k + p.cfg ≤ virtAddr + size p b) ↔
        wholeSize p b < 2 ^ 32) := by
  intro data c
  refine ⟨?_, ?_, ?_, cells_inside virtAddr m hb hN hD⟩
  · intro i j k i' j' k' h h' hne
    exact cells_disjoint virtAddr m h h' hne
  · simp only [data, gpMdpMgrCfgData]
    omega
  · intro i j k h
    have hcell : c i j k = _ := cell_layOut virtAddr m h.1 h.2.1 k
    rw [hcell, Nat.mul_comm b]
    exact Nat.le_add_right _ _

end Layout

/-- Two queues of bursts, with two command queues twice over in each. -/
theorem table_laid_out_two :
    let p : Platform := ⟨2, 2, 40, 4, by decide⟩
    ∀ i j k, Index p 2 i j k →
      cell p (layOut p 4096 2 fun _ => 0) (gpMdpMgrCfgData 4096) i j k + p.cfg ≤
        4096 + size p 2 :=
  (@table_laid_out ⟨2, 2, 40, 4, by decide⟩ 2 4096 (fun _ => 0) (by decide) (by decide)
    (by decide)).2.2.2.mpr (by decide)

end Fixed.BurstTables
