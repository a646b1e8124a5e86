import Fixed.BufferSave

/-!
What a `true` of `saveBufToFile` or `readBufFromFile` tells. A failing call leaves
the loop by a `break` behind which both functions return `true`. So `true` means a
complete transfer exactly when the open fails or no call fails while bytes are
still missing.
-/
namespace Fixed.TransferResult

open ByteFile Loops BufferFile BufferSave

def SaveComplete (opens : Bool) (file : List UInt8) (answers : ℕ → Answer) (buf : ℕ → UInt8)
    (size : ℕ) : Prop :=
  ∀ rounds file', saveBufToFile rounds opens file answers buf size = some (true, file') →
    ∀ k < size, file'[k]? = some (buf k)

/-- With the result `true` every byte of the buffer, whatever was in it, is the file's. -/
def ReadComplete (opens : Bool) (file : List UInt8) (answers : ℕ → Answer) (size : ℕ) : Prop :=
  ∀ rounds buf buf', readBufFromFile rounds opens file answers buf size = some (true, buf') →
    ∀ k < size, file[k]? = some (buf' k)

/-- An early error makes the loop stop with bytes missing. -/
theorem Stopped.incomplete {answers : ℕ → Answer} {size limit cnt written : ℕ}
    (hmoved : Moved answers size limit cnt written) (hstop : Stopped answers size cnt written)
    (hearly : ¬ NoEarlyError answers size limit) : written < size := by
  have hne : written ≠ size := fun hall => hearly ((hmoved.complete_iff hstop).mp hall)
  exact Nat.lt_of_le_of_ne hmoved.le_size hne

theorem ne_some_succ (byte : Option UInt8) : byte ≠ some (byte.getD 0 + 1) := by
  cases byte with
  | none => simp
  | some b =>
    intro h
    have hnat := congrArg UInt8.toNat (Option.some.inj h)
    rw [Option.getD_some, UInt8.toNat_add] at hnat
    have hlt := b.toNat_lt
    have hone : (1 : UInt8).toNat = 1 := rfl
    omega

theorem saveComplete_iff (opens : Bool) (file : List UInt8) (answers : ℕ → Answer)
    (buf : ℕ → UInt8) (size : ℕ) : SaveComplete opens file answers buf size ↔
      opens = false ∨ NoEarlyError answers size size := by
  cases opens with
  | false =>
    constructor
    · intro _
      exact Or.inl rfl
    · intro _ rounds file' h
      cases h
  | true =>
    constructor
    · intro hcomplete
      by_contra hnot
      have hearly : ¬ NoEarlyError answers size size := fun h => hnot (Or.inr h)
      have hhalts : Halts (writeRound buf answers size) ⟨[], 0, 0, 0⟩ := saving_halts
      obtain ⟨s, hs⟩ := halts_iff_exists_leaves.mp hhalts
      obtain ⟨hinv, hstop⟩ := saving_of_leaves hs
      have hlt := Stopped.incomplete hinv.moved hstop hearly
      obtain ⟨rounds, h⟩ : ∃ rounds, saveBufToFile rounds true file answers buf size =
          some (true, s.file) := saveBufToFile_eq_some.mpr ⟨s, hs, rfl⟩
      have hbyte := hcomplete rounds s.file h s.written hlt
      rw [hinv.file, getElem?_block, if_neg (Nat.lt_irrefl _)] at hbyte
      cases hbyte
    · intro hends rounds file' h k hk
      rcases hends with hfalse | hearly
      · cases hfalse
      · obtain ⟨s, hs, hresult⟩ := saveBufToFile_eq_some.mp ⟨rounds, h⟩
        obtain ⟨hinv, hstop⟩ := saving_of_leaves hs
        rw [← (Prod.mk.inj hresult).2, hinv.file, (hinv.moved.complete_iff hstop).mpr hearly,
          getElem?_block, if_pos hk, Nat.zero_add]

theorem readComplete_iff (opens : Bool) (file : List UInt8) (answers : ℕ → Answer) (size : ℕ) :
    ReadComplete opens file answers size ↔
      opens = false ∨ NoEarlyError answers size file.length := by
  cases opens with
  | false =>
    constructor
    · intro _
      exact Or.inl rfl
    · intro _ rounds buf buf' h
      cases h
  | true =>
    constructor
    · intro hcomplete
      by_contra hnot
      have hearly : ∃ k, progress answers size file.length k < size ∧ answers k = .error := by
        simpa [NoEarlyError] using hnot
      obtain ⟨k, hk, herror⟩ := hearly
      -- A buffer none of whose bytes is the file's.
      have hhalts : Halts (readRound file answers size) ⟨fun i => file[i]?.getD 0 + 1, 0, 0, 0⟩ :=
        halts_of_error herror _
      obtain ⟨s, hs⟩ := halts_iff_exists_leaves.mp hhalts
      obtain ⟨hinv, hstop⟩ := reading_of_leaves hs
      have hlt := Stopped.incomplete hinv.moved hstop fun h => h k hk herror
      obtain ⟨rounds, h⟩ := readBufFromFile_eq_some.mpr ⟨s, hs, rfl⟩
      have hbyte := hcomplete rounds _ s.buf h s.written hlt
      rw [hinv.buf, splice_of_le _ _ _ (by rw [length_slice]; omega)] at hbyte
      exact ne_some_succ file[s.written]? hbyte
    · intro hends rounds buf buf' h k hk
      rcases hends with hfalse | hearly
      · cases hfalse
      · obtain ⟨s, hs, hresult⟩ := readBufFromFile_eq_some.mp ⟨rounds, h⟩
        obtain ⟨hinv, hstop⟩ := reading_of_leaves hs
        have hall := (hinv.moved.complete_iff hstop).mpr hearly
        have hlen : size ≤ file.length := hall ▸ hinv.moved.le_limit
        have hin : k < file.length := by omega
        rw [← (Prod.mk.inj hresult).2, hinv.buf, hall, splice_slice buf file hlen 0, if_pos hk,
          List.getElem?_eq_getElem hin, Option.getD_some]

/-- `true` means a complete transfer, for either function, exactly when the open
fails or no call fails while bytes are missing. -/
theorem true_means_complete_iff (opens : Bool) (file : List UInt8) (answers : ℕ → Answer)
    (buf : ℕ → UInt8) (size : ℕ) :
    (SaveComplete opens file answers buf size ↔
        opens = false ∨ NoEarlyError answers size size) ∧
      (ReadComplete opens file answers size ↔
        opens = false ∨ NoEarlyError answers size file.length) :=
  ⟨saveComplete_iff opens file answers buf size, readComplete_iff opens file answers size⟩

/-- The first call fails, and the functions return `true` all the same. -/
theorem failed_transfer_reported_complete :
    ¬ ∀ opens file answers buf size,
      SaveComplete opens file answers buf size ∧ ReadComplete opens file answers size := by
  intro hall
  obtain ⟨hsave, -⟩ := hall true [] (fun _ => .error) (fun _ => 1) 1
  have hbyte := hsave 1 [] rfl 0 Nat.one_pos
  cases hbyte

end Fixed.TransferResult
