import Fixed.BufferSave

/-!
Saving a buffer and reading it back. Without failing calls the writing loop ends
with exactly the bytes of the buffer in the file, whatever was in it and however
the calls split them; the file is then long enough for the reading loop, which
ends with the same bytes in the other buffer and leaves the rest of it alone.
-/
namespace Fixed.BufferRoundTrip

open ByteFile Loops BufferFile BufferSave

def ready (counts : ℕ → ℕ) : ℕ → Answer := fun k => .ready (counts k)

theorem complete_of_ready {counts : ℕ → ℕ} {size cnt written : ℕ}
    (h : Stopped (ready counts) size cnt written) : written = size := by
  rcases h with hall | ⟨-, herror⟩
  · exact hall
  · cases herror

theorem saved_iff (file : List UInt8) (counts : ℕ → ℕ) (buf : ℕ → UInt8) (size : ℕ)
    (result : Bool × List UInt8) :
    (∃ rounds, saveBufToFile rounds true file (ready counts) buf size = some result) ↔
      result = (true, block buf 0 size) := by
  rw [saveBufToFile_eq_some]
  have hfile : ∀ s, Leaves (writeRound buf (ready counts) size) ⟨[], 0, 0, 0⟩ s →
      s.file = block buf 0 size := by
    intro s hs
    obtain ⟨hinv, hstop⟩ := saving_of_leaves hs
    rw [hinv.file, complete_of_ready hstop]
  constructor
  · intro hleaves
    obtain ⟨s, hs, rfl⟩ := hleaves
    rw [hfile s hs]
  · intro hresult
    subst hresult
    have hhalts : Halts (writeRound buf (ready counts) size) ⟨[], 0, 0, 0⟩ := saving_halts
    obtain ⟨s, hs⟩ := halts_iff_exists_leaves.mp hhalts
    exact ⟨s, hs, by rw [hfile s hs]⟩

theorem loaded_iff {file : List UInt8} {size : ℕ} (hlen : size ≤ file.length) (counts : ℕ → ℕ)
    (buf : ℕ → UInt8) (result : Bool × (ℕ → UInt8)) :
    (∃ rounds, readBufFromFile rounds true file (ready counts) buf size = some result) ↔
      result = (true, splice buf 0 (slice file 0 size)) := by
  rw [readBufFromFile_eq_some]
  have hbuf : ∀ s, Leaves (readRound file (ready counts) size) ⟨buf, 0, 0, 0⟩ s →
      s.buf = splice buf 0 (slice file 0 size) := by
    intro s hs
    obtain ⟨hinv, hstop⟩ := reading_of_leaves hs
    rw [hinv.buf, complete_of_ready hstop]
  constructor
  · intro hleaves
    obtain ⟨s, hs, rfl⟩ := hleaves
    rw [hbuf s hs]
  · intro hresult
    subst hresult
    have hhalts : Halts (readRound file (ready counts) size) ⟨buf, 0, 0, 0⟩ :=
      halts_of_long hlen buf
    obtain ⟨s, hs⟩ := halts_iff_exists_leaves.mp hhalts
    exact ⟨s, hs, by rw [hbuf s hs]⟩

/-- The two functions return `true`, and nothing else, with the bytes of the first
buffer at the head of the second one. -/
theorem saved_buffer_reads_back (file : List UInt8) (writes reads : ℕ → ℕ)
    (buf buf' : ℕ → UInt8) (size : ℕ) :
    ∃ saved, (∀ result, (∃ rounds, saveBufToFile rounds true file (ready writes) buf size =
        some result) ↔ result = (true, saved)) ∧
      ∃ loaded, (∀ result, (∃ rounds, readBufFromFile rounds true saved (ready reads) buf' size =
          some result) ↔ result = (true, loaded)) ∧
        (∀ k < size, loaded k = buf k) ∧ ∀ k, size ≤ k → loaded k = buf' k := by
  have hlen : (block buf 0 size).length = size := length_block buf 0 size
  have hget : ∀ k, splice buf' 0 (slice (block buf 0 size) 0 size) k =
      if k < size then buf k else buf' k := by
    intro k
    rw [splice_slice buf' (block buf 0 size) (Nat.le_of_eq hlen.symm) 0 k, getElem?_block]
    split
    · rw [Option.getD_some, Nat.zero_add]
    · rfl
  refine ⟨block buf 0 size, saved_iff file writes buf size,
    splice buf' 0 (slice (block buf 0 size) 0 size), loaded_iff (Nat.le_of_eq hlen.symm) reads buf',
    fun k hk => ?_, fun k hk => ?_⟩
  · rw [hget, if_pos hk]
  · rw [hget, if_neg (not_lt.mpr hk)]

end Fixed.BufferRoundTrip
