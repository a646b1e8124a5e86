import Mathlib.Data.List.Basic
import Mathlib.Data.Nat.Basic
import Mathlib.Tactic.Common

/-!
Positioned reads and writes on a file of cells, and the copying of a block
into memory at an offset. A write past the end fills the gap with a given
cell, as a file system does. Writes, and likewise copies, made one after the
other at adjoining positions amount to a single one, so a transfer made in
chunks is a single transfer of the chunks laid end to end.
-/
namespace Fixed.ByteFile

variable {α : Type*}

def block (m : ℕ → α) (pos n : ℕ) : List α :=
  (List.range n).map fun i => m (pos + i)

/-- The cells a read of `n` cells at `pos` finds. -/
def slice (file : List α) (pos n : ℕ) : List α :=
  (file.drop pos).take n

/-- Write `bs` at `pos`; a gap before `pos` is filled with `z`. -/
def overwrite (z : α) (file : List α) (pos : ℕ) (bs : List α) : List α :=
  if bs.isEmpty then file
  else file.take pos ++ List.replicate (pos - file.length) z ++ bs ++ file.drop (pos + bs.length)

def splice (m : ℕ → α) (pos : ℕ) (bs : List α) : ℕ → α :=
  fun k => if pos ≤ k then (bs[k - pos]?).getD (m k) else m k

@[simp] theorem length_block (m : ℕ → α) (pos n : ℕ) : (block m pos n).length = n := by
  simp [block]

theorem block_ne_nil (m : ℕ → α) (pos : ℕ) {n : ℕ} (hn : 0 < n) : block m pos n ≠ [] := by
  intro he
  have hlen := congrArg List.length he
  rw [length_block, List.length_nil] at hlen
  omega

@[simp] theorem block_zero (m : ℕ → α) (pos : ℕ) : block m pos 0 = [] := rfl

theorem getElem?_block (m : ℕ → α) (pos n k : ℕ) :
    (block m pos n)[k]? = if k < n then some (m (pos + k)) else none := by
  simp only [block, List.getElem?_map]
  split
  · rename_i h
    simp [List.getElem?_range h]
  · rename_i h
    simp [List.getElem?_eq_none (l := List.range n) (i := k) (by simpa using h)]

theorem block_append (m : ℕ → α) (pos a b : ℕ) :
    block m pos a ++ block m (pos + a) b = block m pos (a + b) := by
  simp [block, List.range_add, Nat.add_assoc]

@[simp] theorem length_slice (file : List α) (pos n : ℕ) :
    (slice file pos n).length = min n (file.length - pos) := by
  simp [slice]

@[simp] theorem slice_zero (file : List α) (pos : ℕ) : slice file pos 0 = [] := by
  simp [slice]

theorem getElem?_slice (file : List α) (pos n k : ℕ) :
    (slice file pos n)[k]? = if k < n then file[pos + k]? else none := by
  simp only [slice, List.getElem?_take, List.getElem?_drop]

/-- A read past the end finds what is there. -/
theorem slice_min (file : List α) (pos n : ℕ) :
    slice file pos (min n (file.length - pos)) = slice file pos n := by
  apply List.ext_getElem?
  intro k
  rw [getElem?_slice, getElem?_slice]
  by_cases hk : pos + k < file.length
  · by_cases hn : k < n
    · rw [if_pos (by omega), if_pos hn]
    · rw [if_neg (by omega), if_neg hn]
  · rw [List.getElem?_eq_none (not_lt.mp hk), ite_self, ite_self]

theorem slice_append (file : List α) (pos a b : ℕ) :
    slice file pos a ++ slice file (pos + a) b = slice file pos (a + b) := by
  simp [slice, List.take_add, List.drop_drop]

@[simp] theorem overwrite_nil (z : α) (file : List α) (pos : ℕ) :
    overwrite z file pos [] = file := rfl

/-- A write at the end appends. -/
theorem overwrite_length (z : α) (file bs : List α) :
    overwrite z file file.length bs = file ++ bs := by
  unfold overwrite
  split
  · rename_i h
    rw [List.isEmpty_iff.mp h, List.append_nil]
  · simp

theorem length_overwrite (z : α) (file : List α) (pos : ℕ) {bs : List α} (hbs : bs ≠ []) :
    (overwrite z file pos bs).length = max file.length (pos + bs.length) := by
  have he : bs.isEmpty = false := by simpa using hbs
  simp only [overwrite, he, Bool.false_eq_true, if_false, List.length_append, List.length_take,
    List.length_replicate, List.length_drop]
  omega

theorem getElem?_overwrite (z : α) (file : List α) (pos : ℕ) {bs : List α} (hbs : bs ≠ [])
    (k : ℕ) :
    (overwrite z file pos bs)[k]? =
      if k < pos then (if k < file.length then file[k]? else some z)
      else if k < pos + bs.length then bs[k - pos]? else file[k]? := by
  have he : bs.isEmpty = false := by simpa using hbs
  simp only [overwrite, he, Bool.false_eq_true, if_false, List.getElem?_append,
    List.length_append, List.length_take, List.length_replicate, List.getElem?_take,
    List.getElem?_replicate, List.getElem?_drop]
  by_cases hk : k < pos
  · by_cases hf : k < file.length
    · rw [if_pos (by omega), if_pos (by omega), if_pos (by omega)]
      simp [hk, hf]
    · rw [if_pos (by omega), if_pos (by omega), if_neg (by omega), if_pos (by omega)]
      simp [hk, hf]
  · simp only [if_neg hk]
    by_cases hb : k < pos + bs.length
    · rw [if_pos (by omega), if_neg (by omega), if_pos hb,
        show k - (min pos file.length + (pos - file.length)) = k - pos by omega]
    · rw [if_neg (by omega), if_neg hb,
        show pos + bs.length + (k - (min pos file.length + (pos - file.length) + bs.length)) = k by
          omega]

/-- Writing a block at the start replaces exactly its cells. -/
theorem getElem?_overwrite_block (z : α) (file : List α) (src : ℕ → α) (n k : ℕ) :
    (overwrite z file 0 (block src 0 n))[k]? = if k < n then some (src k) else file[k]? := by
  by_cases hn : n = 0
  · subst hn
    simp
  · have hpos : 0 < n := Nat.pos_of_ne_zero hn
    rw [getElem?_overwrite z file 0 (block_ne_nil src 0 hpos), if_neg (Nat.not_lt_zero k),
      length_block, Nat.zero_add, Nat.sub_zero, getElem?_block, Nat.zero_add]
    split <;> rfl

/-- A write inside the file keeps its length. -/
theorem length_overwrite_of_le (z : α) (file : List α) (pos : ℕ) (bs : List α)
    (h : pos + bs.length ≤ file.length) : (overwrite z file pos bs).length = file.length := by
  by_cases hbs : bs = []
  · simp [hbs]
  · rw [length_overwrite z file pos hbs]
    omega

section Overwrite

variable (z : α) (file : List α) {pos k : ℕ} {bs : List α} (hbs : bs ≠ [])

include hbs

theorem getElem?_overwrite_of_lt (h : k < pos) :
    (overwrite z file pos bs)[k]? = if k < file.length then file[k]? else some z := by
  rw [getElem?_overwrite z file pos hbs, if_pos h]

theorem getElem?_overwrite_of_mem (hlo : pos ≤ k) (hhi : k < pos + bs.length) :
    (overwrite z file pos bs)[k]? = bs[k - pos]? := by
  rw [getElem?_overwrite z file pos hbs, if_neg (by omega), if_pos hhi]

theorem getElem?_overwrite_of_le (h : pos + bs.length ≤ k) :
    (overwrite z file pos bs)[k]? = file[k]? := by
  rw [getElem?_overwrite z file pos hbs, if_neg (by omega), if_neg (by omega)]

end Overwrite

theorem overwrite_overwrite (z : α) (file : List α) (pos : ℕ) (a b : List α) :
    overwrite z (overwrite z file pos a) (pos + a.length) b = overwrite z file pos (a ++ b) := by
  by_cases ha : a = []
  · simp [ha]
  by_cases hb : b = []
  · simp [hb]
  have hab : a ++ b ≠ [] := by simp [ha]
  have hfirst := length_overwrite z file pos ha
  have hboth : (a ++ b).length = a.length + b.length := List.length_append
  apply List.ext_getElem?
  intro k
  rcases lt_or_ge k (pos + a.length) with h2 | h2
  · rw [getElem?_overwrite_of_lt z _ hb h2, if_pos (by omega)]
    rcases lt_or_ge k pos with h1 | h1
    · rw [getElem?_overwrite_of_lt z file ha h1, getElem?_overwrite_of_lt z file hab h1]
    · rw [getElem?_overwrite_of_mem z file ha h1 h2,
        getElem?_overwrite_of_mem z file hab h1 (by omega), List.getElem?_append_left (by omega)]
  · rcases lt_or_ge k (pos + a.length + b.length) with h3 | h3
    · rw [getElem?_overwrite_of_mem z _ hb h2 h3,
        getElem?_overwrite_of_mem z file hab (by omega) (by omega),
        List.getElem?_append_right (by omega), Nat.sub_add_eq]
    · rw [getElem?_overwrite_of_le z _ hb h3, getElem?_overwrite_of_le z file ha h2,
        getElem?_overwrite_of_le z file hab (by omega)]

@[simp] theorem splice_nil (m : ℕ → α) (pos : ℕ) : splice m pos [] = m := by
  funext k
  simp [splice]

theorem splice_of_lt (m : ℕ → α) (pos : ℕ) (bs : List α) {k : ℕ} (h : k < pos) :
    splice m pos bs k = m k := if_neg (by omega)

theorem splice_of_ge (m : ℕ → α) (pos : ℕ) (bs : List α) {k : ℕ} (h : pos ≤ k) :
    splice m pos bs k = (bs[k - pos]?).getD (m k) := if_pos h

theorem splice_of_le (m : ℕ → α) (pos : ℕ) (bs : List α) {k : ℕ} (h : pos + bs.length ≤ k) :
    splice m pos bs k = m k := by
  rw [splice_of_ge m pos bs (by omega), List.getElem?_eq_none (by omega), Option.getD_none]

theorem splice_of_getElem? (m : ℕ → α) (pos : ℕ) (bs : List α) {k : ℕ} {b : α}
    (h : bs[k]? = some b) : splice m pos bs (pos + k) = b := by
  simp [splice, h]

theorem splice_splice (m : ℕ → α) (pos : ℕ) (a b : List α) :
    splice (splice m pos a) (pos + a.length) b = splice m pos (a ++ b) := by
  funext k
  rcases lt_or_ge k pos with h1 | h1
  · rw [splice_of_lt _ _ _ (by omega), splice_of_lt _ _ _ h1, splice_of_lt _ _ _ h1]
  · rw [splice_of_ge m pos (a ++ b) h1]
    rcases lt_or_ge k (pos + a.length) with h2 | h2
    · rw [splice_of_lt _ _ _ h2, splice_of_ge _ _ _ h1, List.getElem?_append_left (by omega)]
    · rw [splice_of_ge _ _ _ h2, splice_of_le _ _ _ h2, List.getElem?_append_right (by omega),
        Nat.sub_add_eq]

/-- Copying the head of a file into memory replaces exactly its cells. -/
theorem splice_slice (m : ℕ → α) (file : List α) {n : ℕ} (h : n ≤ file.length) (z : α) (k : ℕ) :
    splice m 0 (slice file 0 n) k = if k < n then (file[k]?).getD z else m k := by
  by_cases hk : k < n
  · have hin : k < file.length := by omega
    have hget : (slice file 0 n)[k]? = some file[k] := by
      rw [getElem?_slice, if_pos hk, Nat.zero_add, List.getElem?_eq_getElem hin]
    have hsp := splice_of_getElem? m 0 _ hget
    rw [Nat.zero_add] at hsp
    rw [hsp, if_pos hk, List.getElem?_eq_getElem hin, Option.getD_some]
  · rw [if_neg hk, splice_of_le]
    rw [length_slice]
    omega

section Chunks

variable {β : Type*} (op : β → ℕ → List α → β)

theorem length_flatMap_full {L n : ℕ} {piece : ℕ → List α}
    (h : ∀ i, i < n → (piece i).length = L) : ((List.range n).flatMap piece).length = L * n := by
  induction n with
  | zero => simp
  | succ n ih =>
    have hn := ih fun i hi => h i (by omega)
    rw [List.range_succ, List.flatMap_append, List.length_append, hn]
    simp [h n (by omega), Nat.mul_succ]

/-- Transferring pieces chunk by chunk, all but the last of full length `L`,
is one transfer of the pieces laid end to end. -/
theorem foldl_chunks (hnil : ∀ b p, op b p [] = b)
    (happ : ∀ b p u v, op (op b p u) (p + u.length) v = op b p (u ++ v))
    {L n : ℕ} {piece : ℕ → List α} (hfull : ∀ i, i + 1 < n → (piece i).length = L) (b : β) :
    (List.range n).foldl (fun acc i => op acc (L * i) (piece i)) b =
      op b 0 ((List.range n).flatMap piece) := by
  induction n with
  | zero => simp [hnil]
  | succ n ih =>
    have hlen : ((List.range n).flatMap piece).length = L * n :=
      length_flatMap_full fun i hi => hfull i (by omega)
    rw [List.range_succ, List.foldl_append, ih fun i hi => hfull i (by omega),
      List.flatMap_append]
    have hstep := happ b 0 ((List.range n).flatMap piece) (piece n)
    rw [Nat.zero_add, hlen] at hstep
    simpa using hstep

/-- Cutting the first `count` cells into chunks of at most `L` and laying them
end to end gives these cells back, as far as the chunks reach. -/
theorem flatMap_cut {cut : ℕ → ℕ → List α} (hcut : ∀ p, cut p 0 = [])
    (hsplit : ∀ a b, cut 0 a ++ cut a b = cut 0 (a + b)) (L count n : ℕ) :
    ((List.range n).flatMap fun i => cut (L * i) (min L (count - L * i))) =
      cut 0 (min (L * n) count) := by
  induction n with
  | zero => simp [hcut]
  | succ n ih =>
    rw [List.range_succ, List.flatMap_append, ih]
    simp only [List.flatMap_cons, List.flatMap_nil, List.append_nil, Nat.mul_succ]
    by_cases h : L * n ≤ count
    · rw [Nat.min_eq_left h, hsplit]
      congr 1
      omega
    · have hz : min L (count - L * n) = 0 := by omega
      rw [hz, hcut, List.append_nil]
      congr 1
      omega

end Chunks

theorem flatMap_block (m : ℕ → α) (L count n : ℕ) :
    ((List.range n).flatMap fun i => block m (L * i) (min L (count - L * i))) =
      block m 0 (min (L * n) count) := by
  apply flatMap_cut (block_zero m)
  intro a b
  have hsplit := block_append m 0 a b
  rwa [Nat.zero_add] at hsplit

theorem flatMap_slice (file : List α) (L count n : ℕ) :
    ((List.range n).flatMap fun i => slice file (L * i) (min L (count - L * i))) =
      slice file 0 (min (L * n) count) := by
  apply flatMap_cut (slice_zero file)
  intro a b
  have hsplit := slice_append file 0 a b
  rwa [Nat.zero_add] at hsplit

end Fixed.ByteFile
