import Fixed.BufferFile
import Mathlib.Order.Monotone.Basic

/-!
The writer beside the reader of `BufferFile`. `saveBufToFile` truncates its file
and calls `write` until the size asked for is reached or a call fails. Both loops
move what their calls are ready for, as far as there are bytes: after so many
calls without a failure they have moved as many bytes as `progress` tells, from
the start of the buffer to the start of the file or back. A loop that leaves has
moved all, or met a failing call with bytes still missing.
-/
namespace Fixed.BufferSave

open ByteFile Loops BufferFile

def granted (answer : Answer) (count : ℕ) : ℕ :=
  match answer with
  | .error => 0
  | .ready n => min (max 1 n) (min count MAX_RW_COUNT)

/-- The number of bytes a call of `write` takes: at least one and at most as many
as asked for. -/
def write (answer : Answer) (count : ℕ) : Option ℕ :=
  match answer with
  | .error => none
  | .ready _ => some (granted answer count)

structure Saving where
  file : List UInt8
  written : ℕ
  cnt : ℕ
  pos : ℕ

def writeRound (buf : ℕ → UInt8) (answers : ℕ → Answer) (size : ℕ) (s : Saving) :
    Saving ⊕ Saving :=
  if s.written < size then
    match write (answers s.cnt) (size - s.written) with
    | none => .inl s
    | some nw => .inr
      { file := overwrite 0 s.file s.pos (block buf s.written nw)
        written := s.written + nw
        cnt := s.cnt + 1
        pos := s.pos + nw }
  else .inl s

/-- Result and file afterwards, if the loop ends within the given number of
rounds. The file is opened with `O_CREAT | O_TRUNC`. -/
def saveBufToFile (rounds : ℕ) (opens : Bool) (file : List UInt8) (answers : ℕ → Answer)
    (buf : ℕ → UInt8) (size : ℕ) : Option (Bool × List UInt8) :=
  if opens then
    (iterate (writeRound buf answers size) rounds ⟨[], 0, 0, 0⟩).map fun s => (true, s.file)
  else some (false, file)

/-- The bytes moved by so many calls, none of them failing, where `limit` bytes are
there to be moved. -/
def progress (answers : ℕ → Answer) (size limit : ℕ) : ℕ → ℕ
  | 0 => 0
  | k + 1 => progress answers size limit k +
      min (granted (answers k) (size - progress answers size limit k))
        (limit - progress answers size limit k)

def NoEarlyError (answers : ℕ → Answer) (size limit : ℕ) : Prop :=
  ∀ k, progress answers size limit k < size → answers k ≠ .error

structure Moved (answers : ℕ → Answer) (size limit cnt written : ℕ) : Prop where
  count : written = progress answers size limit cnt
  ready : ∀ k < cnt, answers k ≠ .error
  le_size : written ≤ size
  le_limit : written ≤ limit

def Stopped (answers : ℕ → Answer) (size cnt written : ℕ) : Prop :=
  written = size ∨ written < size ∧ answers cnt = .error

section Moved

variable {answers : ℕ → Answer} {size limit cnt written : ℕ}

theorem moved_zero (answers : ℕ → Answer) (size limit : ℕ) : Moved answers size limit 0 0 where
  count := rfl
  ready k hk := absurd hk (Nat.not_lt_zero k)
  le_size := Nat.zero_le size
  le_limit := Nat.zero_le limit

theorem granted_le (answer : Answer) (count : ℕ) : granted answer count ≤ count := by
  cases answer with
  | error => exact Nat.zero_le count
  | ready n => exact (Nat.min_le_right _ _).trans (Nat.min_le_left _ _)

/-- One more call that does not fail. -/
theorem Moved.next (h : Moved answers size limit cnt written) (hready : answers cnt ≠ .error)
    {n : ℕ} (hn : n = min (granted (answers cnt) (size - written)) (limit - written)) :
    Moved answers size limit (cnt + 1) (written + n) := by
  have hle := granted_le (answers cnt) (size - written)
  have hsize := h.le_size
  have hlimit := h.le_limit
  refine ⟨?_, fun k hk => ?_, by omega, by omega⟩
  · rw [progress, ← h.count, ← hn]
  · rcases Nat.lt_succ_iff_lt_or_eq.mp hk with hlt | rfl
    · exact h.ready k hlt
    · exact hready

theorem progress_mono (answers : ℕ → Answer) (size limit : ℕ) :
    Monotone (progress answers size limit) :=
  monotone_nat_of_le_succ fun _ => Nat.le_add_right _ _

/-- A loop that stopped has moved all bytes exactly if no call failed before. -/
theorem Moved.complete_iff (h : Moved answers size limit cnt written)
    (hstop : Stopped answers size cnt written) :
    written = size ↔ NoEarlyError answers size limit := by
  constructor
  · intro hall k hk
    by_cases hlt : k < cnt
    · exact h.ready k hlt
    · have hmono := progress_mono answers size limit (not_lt.mp hlt)
      rw [← h.count] at hmono
      omega
  · intro hearly
    rcases hstop with hall | ⟨hlt, herror⟩
    · exact hall
    · exact absurd herror (hearly cnt (h.count ▸ hlt))

theorem Moved.stopped (h : Moved answers size limit cnt written)
    (hleft : size ≤ written ∨ written < size ∧ answers cnt = .error) :
    Stopped answers size cnt written := by
  rcases hleft with hall | herror
  · exact Or.inl (Nat.le_antisymm h.le_size hall)
  · exact Or.inr herror

end Moved

section Save

variable {buf : ℕ → UInt8} {answers : ℕ → Answer} {size : ℕ} {s t : Saving}

structure SavingInv (buf : ℕ → UInt8) (answers : ℕ → Answer) (size : ℕ) (s : Saving) : Prop where
  moved : Moved answers size size s.cnt s.written
  pos : s.pos = s.written
  file : s.file = block buf 0 s.written

/-- What a round that goes on does. -/
theorem writeRound_goes_on (h : writeRound buf answers size s = .inr t) :
    s.written < size ∧ ∃ n, answers s.cnt = .ready n ∧ t.cnt = s.cnt + 1 ∧
      t.written = s.written + granted (.ready n) (size - s.written) ∧
      t.pos = s.pos + granted (.ready n) (size - s.written) ∧
      t.file = overwrite 0 s.file s.pos
        (block buf s.written (granted (.ready n) (size - s.written))) := by
  unfold writeRound at h
  split at h
  · rename_i hlt
    cases hanswer : answers s.cnt with
    | error =>
      rw [hanswer] at h
      cases h
    | ready n =>
      rw [hanswer] at h
      obtain rfl := Sum.inr.inj h
      exact ⟨hlt, n, rfl, rfl, rfl, rfl, rfl⟩
  · cases h

/-- The loop is left in the state it is in, at the size asked for or by a failing call. -/
theorem writeRound_leaves (h : writeRound buf answers size s = .inl t) :
    t = s ∧ (size ≤ s.written ∨ s.written < size ∧ answers s.cnt = .error) := by
  unfold writeRound at h
  split at h
  · rename_i hlt
    cases hanswer : answers s.cnt with
    | error =>
      rw [hanswer] at h
      exact ⟨(Sum.inl.inj h).symm, Or.inr ⟨hlt, rfl⟩⟩
    | ready n =>
      rw [hanswer] at h
      cases h
  · rename_i hge
    exact ⟨(Sum.inl.inj h).symm, Or.inl (not_lt.mp hge)⟩

theorem savingInv_round (hs : SavingInv buf answers size s)
    (h : writeRound buf answers size s = .inr t) : SavingInv buf answers size t := by
  obtain ⟨hlt, n, hanswer, hcnt, hwritten, hpos, hfile⟩ := writeRound_goes_on h
  have hready : answers s.cnt ≠ .error := by simp [hanswer]
  have hle := granted_le (.ready n) (size - s.written)
  refine ⟨?_, ?_, ?_⟩
  · rw [hcnt, hwritten]
    apply hs.moved.next hready
    rw [hanswer, Nat.min_eq_left hle]
  · rw [hpos, hwritten, hs.pos]
  · have hlen : s.pos = s.file.length := by rw [hs.file, length_block, hs.pos]
    have happ := block_append buf 0 s.written (granted (.ready n) (size - s.written))
    rw [Nat.zero_add] at happ
    rw [hfile, hwritten, hlen, overwrite_length, hs.file, happ]

theorem writeRound_stops (hs : SavingInv buf answers size s)
    (h : writeRound buf answers size s = .inl t) :
    SavingInv buf answers size t ∧ Stopped answers size t.cnt t.written := by
  obtain ⟨rfl, hleft⟩ := writeRound_leaves h
  exact ⟨hs, hs.moved.stopped hleft⟩

/-- What the writing loop leaves behind. -/
theorem saving_of_leaves (h : Leaves (writeRound buf answers size) ⟨[], 0, 0, 0⟩ s) :
    SavingInv buf answers size s ∧ Stopped answers size s.cnt s.written :=
  of_leaves (SavingInv buf answers size) (fun _ _ => savingInv_round)
    (fun _ _ => writeRound_stops) ⟨moved_zero answers size size, rfl, rfl⟩ h

/-- Each call that does not fail takes at least one byte, so the loop ends. -/
theorem saving_halts : Halts (writeRound buf answers size) ⟨[], 0, 0, 0⟩ := by
  apply halts_of_measure (fun _ => True) (fun s => size - s.written)
  · intro s t _ h
    obtain ⟨hlt, n, -, -, hwritten, -, -⟩ := writeRound_goes_on h
    have hpos : 0 < granted (.ready n) (size - s.written) := by
      have hmax : 0 < MAX_RW_COUNT := by unfold MAX_RW_COUNT; omega
      simp only [granted]
      omega
    exact ⟨trivial, by omega⟩
  · trivial

end Save

section Read

variable {file : List UInt8} {answers : ℕ → Answer} {size : ℕ} {buf : ℕ → UInt8} {s t : Progress}

structure ReadingInv (file : List UInt8) (answers : ℕ → Answer) (size : ℕ) (buf : ℕ → UInt8)
    (s : Progress) : Prop where
  moved : Moved answers size file.length s.cnt s.written
  pos : s.pos = s.written
  buf : s.buf = splice buf 0 (slice file 0 s.written)

theorem readingInv_round (hs : ReadingInv file answers size buf s)
    (h : readRound file answers size s = .inr t) : ReadingInv file answers size buf t := by
  obtain ⟨hlt, n, hanswer, hcnt, hwritten, hpos, hbuf⟩ := readRound_goes_on h
  have hready : answers s.cnt ≠ .error := by simp [hanswer]
  have hlimit := hs.moved.le_limit
  refine ⟨?_, ?_, ?_⟩
  · rw [hcnt, hwritten]
    apply hs.moved.next hready
    rw [hanswer, hs.pos]
    rfl
  · rw [hpos, hwritten, hs.pos]
  · have hlen : (slice file 0 s.written).length = s.written := by
      rw [length_slice]
      omega
    have hsplice := splice_splice buf 0 (slice file 0 s.written)
      (slice file s.pos (min (max 1 n) (min (size - s.written) MAX_RW_COUNT)))
    have happ := slice_append file 0 s.written
      (min (min (max 1 n) (min (size - s.written) MAX_RW_COUNT)) (file.length - s.pos))
    rw [Nat.zero_add] at happ
    rw [hlen, Nat.zero_add] at hsplice
    rw [hbuf, hwritten, hs.buf, hsplice, ← happ, hs.pos, slice_min]

theorem readRound_stops (hs : ReadingInv file answers size buf s)
    (h : readRound file answers size s = .inl t) :
    ReadingInv file answers size buf t ∧ Stopped answers size t.cnt t.written := by
  obtain ⟨rfl, hleft⟩ := readRound_leaves h
  exact ⟨hs, hs.moved.stopped hleft⟩

/-- What the reading loop leaves behind. -/
theorem reading_of_leaves (h : Leaves (readRound file answers size) ⟨buf, 0, 0, 0⟩ s) :
    ReadingInv file answers size buf s ∧ Stopped answers size s.cnt s.written := by
  apply of_leaves (ReadingInv file answers size buf) (fun _ _ => readingInv_round)
    (fun _ _ => readRound_stops) _ h
  exact ⟨moved_zero answers size file.length, rfl, by rw [slice_zero, splice_nil]⟩

end Read

theorem saveBufToFile_eq_some {file : List UInt8} {answers : ℕ → Answer} {buf : ℕ → UInt8}
    {size : ℕ} {result : Bool × List UInt8} :
    (∃ rounds, saveBufToFile rounds true file answers buf size = some result) ↔
      ∃ s, Leaves (writeRound buf answers size) ⟨[], 0, 0, 0⟩ s ∧ (true, s.file) = result := by
  simp only [saveBufToFile, if_true, Option.map_eq_some_iff]
  constructor
  · intro hsome
    obtain ⟨rounds, s, hs, hresult⟩ := hsome
    exact ⟨s, ⟨rounds, hs⟩, hresult⟩
  · intro hleaves
    obtain ⟨s, ⟨rounds, hs⟩, hresult⟩ := hleaves
    exact ⟨rounds, s, hs, hresult⟩

theorem readBufFromFile_eq_some {file : List UInt8} {answers : ℕ → Answer} {buf : ℕ → UInt8}
    {size : ℕ} {result : Bool × (ℕ → UInt8)} :
    (∃ rounds, readBufFromFile rounds true file answers buf size = some result) ↔
      ∃ s, Leaves (readRound file answers size) ⟨buf, 0, 0, 0⟩ s ∧ (true, s.buf) = result := by
  simp only [readBufFromFile, if_true, Option.map_eq_some_iff]
  constructor
  · intro hsome
    obtain ⟨rounds, s, hs, hresult⟩ := hsome
    exact ⟨s, ⟨rounds, hs⟩, hresult⟩
  · intro hleaves
    obtain ⟨s, ⟨rounds, hs⟩, hresult⟩ := hleaves
    exact ⟨rounds, s, hs, hresult⟩

end Fixed.BufferSave
