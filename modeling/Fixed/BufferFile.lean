import Fixed.ByteFile
import Fixed.Loops

/-!
Reading a buffer from a file, as the sobel test does it. `readBufFromFile` calls
`read` until the size asked for is reached or a call fails; a call at the end of
the file returns zero, and the loop takes that for progress. So it ends exactly
when the open fails, the file is long enough, or some call fails.
-/
namespace Fixed.BufferFile

open ByteFile Loops

/-- What the system does with one call of `read`: it fails, or is ready to move so
many bytes. -/
inductive Answer
  | error
  | ready (n : ℕ)
deriving DecidableEq, Repr

def MAX_RW_COUNT : ℕ := 0x7ffff000

/-- The bytes a call of `read` delivers: at least one and at most as many as asked
for while bytes remain, and none at the end of the file. -/
def read (file : List UInt8) (answer : Answer) (pos count : ℕ) : Option (List UInt8) :=
  match answer with
  | .error => none
  | .ready n => some (slice file pos (min (max 1 n) (min count MAX_RW_COUNT)))

structure Progress where
  buf : ℕ → UInt8
  written : ℕ
  cnt : ℕ
  pos : ℕ

def readRound (file : List UInt8) (answers : ℕ → Answer) (size : ℕ) (s : Progress) :
    Progress ⊕ Progress :=
  if s.written < size then
    match read file (answers s.cnt) s.pos (size - s.written) with
    | none => .inl s
    | some bs => .inr
      { buf := splice s.buf s.written bs
        written := s.written + bs.length
        cnt := s.cnt + 1
        pos := s.pos + bs.length }
  else .inl s

/-- Result and buffer afterwards, if the loop ends within the given number of rounds. -/
def readBufFromFile (rounds : ℕ) (opens : Bool) (file : List UInt8) (answers : ℕ → Answer)
    (buf : ℕ → UInt8) (size : ℕ) : Option (Bool × (ℕ → UInt8)) :=
  if opens then
    (iterate (readRound file answers size) rounds ⟨buf, 0, 0, 0⟩).map fun s => (true, s.buf)
  else some (false, buf)

def Terminates (opens : Bool) (file : List UInt8) (answers : ℕ → Answer) (buf : ℕ → UInt8)
    (size : ℕ) : Prop :=
  ∃ rounds result, readBufFromFile rounds opens file answers buf size = some result

section Loop

variable {file : List UInt8} {answers : ℕ → Answer} {size : ℕ} {s t : Progress}

/-- What a round that goes on does. -/
theorem readRound_goes_on (h : readRound file answers size s = .inr t) :
    s.written < size ∧ ∃ n, answers s.cnt = .ready n ∧ t.cnt = s.cnt + 1 ∧
      t.written = s.written + min (min (max 1 n) (min (size - s.written) MAX_RW_COUNT))
        (file.length - s.pos) ∧
      t.pos = s.pos + min (min (max 1 n) (min (size - s.written) MAX_RW_COUNT))
        (file.length - s.pos) ∧
      t.buf = splice s.buf s.written
        (slice file s.pos (min (max 1 n) (min (size - s.written) MAX_RW_COUNT))) := by
  unfold readRound at h
  split at h
  · rename_i hlt
    cases hanswer : answers s.cnt with
    | error =>
      rw [hanswer] at h
      cases h
    | ready n =>
      rw [hanswer] at h
      obtain rfl := Sum.inr.inj h
      refine ⟨hlt, n, rfl, rfl, ?_, ?_, rfl⟩
      · rw [length_slice]
      · rw [length_slice]
  · cases h

/-- The loop is left in the state it is in, at the size asked for or by a failing call. -/
theorem readRound_leaves (h : readRound file answers size s = .inl t) :
    t = s ∧ (size ≤ s.written ∨ s.written < size ∧ answers s.cnt = .error) := by
  unfold readRound at h
  split at h
  · rename_i hlt
    cases hanswer : answers s.cnt with
    | error =>
      rw [hanswer] at h
      exact ⟨(Sum.inl.inj h).symm, Or.inr ⟨hlt, rfl⟩⟩
    | ready n =>
      rw [hanswer] at h
      cases h
  · rename_i hge
    exact ⟨(Sum.inl.inj h).symm, Or.inl (not_lt.mp hge)⟩

/-- A round goes on while bytes are asked for and the call does not fail. -/
theorem readRound_ready (hlt : s.written < size) {n : ℕ} (h : answers s.cnt = .ready n) :
    ∃ t, readRound file answers size s = .inr t := by
  unfold readRound
  rw [if_pos hlt, h]
  exact ⟨_, rfl⟩

/-- A file with enough bytes gives at least one in each round. -/
theorem halts_of_long (hlen : size ≤ file.length) (buf : ℕ → UInt8) :
    Halts (readRound file answers size) ⟨buf, 0, 0, 0⟩ := by
  apply halts_of_measure (fun s => s.pos = s.written) (fun s => size - s.written)
  · intro s t hpos h
    obtain ⟨hlt, n, -, -, hwritten, hpos', -⟩ := readRound_goes_on h
    have hmax : 0 < MAX_RW_COUNT := by unfold MAX_RW_COUNT; omega
    constructor
    · omega
    · omega
  · rfl

/-- A call that fails ends the loop, if nothing did before. -/
theorem halts_of_error {k : ℕ} (hk : answers k = .error) (buf : ℕ → UInt8) :
    Halts (readRound file answers size) ⟨buf, 0, 0, 0⟩ := by
  apply halts_of_measure (fun s => s.cnt ≤ k) (fun s => k - s.cnt)
  · intro s t hle h
    obtain ⟨-, n, hready, hcnt, -⟩ := readRound_goes_on h
    have hne : s.cnt ≠ k := by
      intro heq
      rw [heq, hk] at hready
      cases hready
    constructor
    · omega
    · omega
  · exact Nat.zero_le k

/-- At the end of a file that is too short the loop goes on for ever. -/
theorem not_halts_of_short (hlen : file.length < size) (hready : ∀ k, answers k ≠ .error)
    (buf : ℕ → UInt8) : ¬ Halts (readRound file answers size) ⟨buf, 0, 0, 0⟩ := by
  apply not_halts_of_invariant fun s => s.pos = s.written ∧ s.written ≤ file.length
  · intro s hs
    obtain ⟨hpos, hle⟩ := hs
    obtain ⟨n, hn⟩ : ∃ n, answers s.cnt = .ready n := by
      cases h : answers s.cnt with
      | error => exact absurd h (hready s.cnt)
      | ready n => exact ⟨n, rfl⟩
    have hlt : s.written < size := by omega
    obtain ⟨t, ht⟩ : ∃ t, readRound file answers size s = .inr t := readRound_ready hlt hn
    obtain ⟨-, m, -, -, hwritten, hpos', -⟩ := readRound_goes_on ht
    exact ⟨t, ht, by omega, by omega⟩
  · exact ⟨rfl, Nat.zero_le _⟩

end Loop

theorem terminates_iff_halts (file : List UInt8) (answers : ℕ → Answer) (buf : ℕ → UInt8)
    (size : ℕ) : Terminates true file answers buf size ↔
      Halts (readRound file answers size) ⟨buf, 0, 0, 0⟩ := by
  constructor
  · intro hreturns
    obtain ⟨rounds, result, h⟩ := hreturns
    obtain ⟨s, hs, -⟩ := Option.map_eq_some_iff.mp h
    exact ⟨rounds, s, hs⟩
  · intro hhalts
    obtain ⟨rounds, s, hs⟩ := hhalts
    exact ⟨rounds, (true, s.buf), Option.map_eq_some_iff.mpr ⟨s, hs, rfl⟩⟩

/-- `readBufFromFile` returns exactly when the open fails, the file has the size
asked for, or one of the calls of `read` fails. -/
theorem terminates_iff (opens : Bool) (file : List UInt8) (answers : ℕ → Answer)
    (buf : ℕ → UInt8) (size : ℕ) : Terminates opens file answers buf size ↔
      opens = false ∨ size ≤ file.length ∨ ∃ k, answers k = .error := by
  cases opens with
  | false => exact ⟨fun _ => Or.inl rfl, fun _ => ⟨0, _, rfl⟩⟩
  | true =>
    rw [terminates_iff_halts]
    constructor
    · intro hhalts
      by_contra hnone
      simp only [not_or, not_exists, not_le] at hnone
      obtain ⟨-, hlen, hready⟩ := hnone
      exact not_halts_of_short hlen hready buf hhalts
    · intro hends
      rcases hends with hfalse | hlen | ⟨k, hk⟩
      · cases hfalse
      · exact halts_of_long hlen buf
      · exact halts_of_error hk buf

/-- The test asks for 307200 bytes of a file that is empty. -/
theorem empty_file_never_read :
    ¬ ∀ opens file answers buf size, Terminates opens file answers buf size := by
  intro hall
  have hhalts := (terminates_iff_halts [] (fun _ => .ready 4096) (fun _ => 0) 307200).mp
    (hall true [] (fun _ => .ready 4096) (fun _ => 0) 307200)
  refine not_halts_of_short ?_ (fun _ => ?_) (fun _ => 0) hhalts
  · rw [List.length_nil]
    omega
  · simp

end Fixed.BufferFile
