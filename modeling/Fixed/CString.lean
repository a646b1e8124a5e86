import Mathlib.Data.List.TakeWhile
import Mathlib.Data.List.Infix

/-!
Strings given by their characters before the NUL, and the calls that copy them
into buffers and cut them into fields. A loop over `strsep` yields the fields
between the separators. Fields joined by a separator none of them contains come
back unchanged.
-/
namespace Fixed.CString

variable {α : Type*}

/-- What `strlcpy` leaves in a buffer of `size` characters. -/
def strlcpy (s : List α) (size : ℕ) : List α := s.take (size - 1)

def strim (isspace : α → Bool) (s : List α) : List α :=
  ((s.dropWhile isspace).reverse.dropWhile isspace).reverse

/-- What `strim` leaves in the buffer: the blanks at the end are cut off in place. -/
def strimBuffer (isspace : α → Bool) (s : List α) : List α :=
  (s.reverse.dropWhile isspace).reverse

section Fields

variable [DecidableEq α]

def strsep (s : List α) (delim : α) : List α × Option (List α) :=
  (s.takeWhile (· ≠ delim), match s.dropWhile (· ≠ delim) with
    | [] => none
    | _ :: rest => some rest)

/-- The fields that `while (s) { field = strsep(&s, delim); … }` goes through. -/
def fields (s : List α) (delim : α) : List (List α) := s.splitOn delim

/-- `fields` is what the loop computes. -/
theorem fields_eq_strsep (s : List α) (delim : α) :
    fields s delim = (strsep s delim).1 :: match (strsep s delim).2 with
      | none => []
      | some rest => fields rest delim := by
  have hsplit := List.takeWhile_append_dropWhile (p := fun x => decide (x ≠ delim)) (l := s)
  have hfront : delim ∉ s.takeWhile (· ≠ delim) := by
    intro hmem
    simpa using List.mem_takeWhile_imp hmem
  unfold fields strsep
  cases hdrop : s.dropWhile (· ≠ delim) with
  | nil =>
    have hs : s.takeWhile (· ≠ delim) = s := by rw [hdrop, List.append_nil] at hsplit; exact hsplit
    simp only [hs]
    rw [hs] at hfront
    exact List.splitOn_eq_singleton hfront
  | cons x rest =>
    have hx : x = delim := by
      have hhead := List.head?_dropWhile_not (fun x => decide (x ≠ delim)) s
      rw [hdrop] at hhead
      simpa using hhead
    subst hx
    rw [hdrop] at hsplit
    conv_lhs => rw [← hsplit]
    exact List.splitOn_append_cons_self_of_not_mem hfront rest

theorem fields_ne_nil (s : List α) (delim : α) : fields s delim ≠ [] := List.splitOn_ne_nil _ _

theorem fields_intercalate (delim : α) {ls : List (List α)} (hls : ls ≠ [])
    (h : ∀ l ∈ ls, delim ∉ l) : fields ([delim].intercalate ls) delim = ls :=
  List.splitOn_intercalate delim h hls

/-- There is one more field than there are separators. -/
theorem length_fields (s : List α) (delim : α) :
    (fields s delim).length = s.count delim + 1 := by
  induction s with
  | nil => rfl
  | cons x s ih =>
    unfold fields at ih ⊢
    by_cases hx : x = delim
    · subst hx
      rw [List.splitOn_cons_eq_if_modifyHead, if_pos (beq_self_eq_true x), List.length_cons, ih,
        List.count_cons_self]
    · rw [List.splitOn_cons_eq_if_modifyHead, if_neg (by simpa using hx), List.length_modifyHead,
        ih, List.count_cons_of_ne hx]

end Fields

theorem mem_intercalate {delim x : α} {ls : List (List α)} (h : x ∈ [delim].intercalate ls) :
    x = delim ∨ ∃ l ∈ ls, x ∈ l := by
  induction ls with
  | nil => simp at h
  | cons l ls ih =>
    cases ls with
    | nil => exact Or.inr ⟨l, by simp, by simpa using h⟩
    | cons l' ls =>
      rw [List.intercalate_cons_cons, List.append_assoc, List.mem_append] at h
      rcases h with hl | hrest
      · exact Or.inr ⟨l, by simp, hl⟩
      · rcases List.mem_append.mp hrest with hdelim | hrest
        · exact Or.inl (List.mem_singleton.mp hdelim)
        · rcases ih hrest with heq | ⟨l'', hl'', hx⟩
          · exact Or.inl heq
          · exact Or.inr ⟨l'', List.mem_cons_of_mem l hl'', hx⟩

theorem length_strlcpy_lt (s : List α) {size : ℕ} (h : 0 < size) :
    (strlcpy s size).length < size := by
  have hlen := List.length_take_le (size - 1) s
  unfold strlcpy
  omega

theorem strlcpy_of_length_lt {s : List α} {size : ℕ} (h : s.length < size) :
    strlcpy s size = s := List.take_of_length_le (show s.length ≤ size - 1 by omega)

theorem strim_sublist (isspace : α → Bool) (s : List α) : (strim isspace s).Sublist s := by
  unfold strim
  have hback := ((s.dropWhile isspace).reverse.dropWhile_sublist isspace).reverse
  rw [List.reverse_reverse] at hback
  exact hback.trans (s.dropWhile_sublist isspace)

/-- A string without blanks, but for one that follows it. -/
theorem strim_append_blank (isspace : α → Bool) {s : List α} {x : α}
    (hs : ∀ y ∈ s, isspace y = false) (hne : s ≠ []) (hx : isspace x = true) :
    strim isspace (s ++ [x]) = s := by
  have hdrop : (s ++ [x]).dropWhile isspace = s ++ [x] := by
    cases s with
    | nil => exact absurd rfl hne
    | cons y s => simp [hs y List.mem_cons_self]
  have hrev : s.reverse.dropWhile isspace = s.reverse := by
    cases hr : s.reverse with
    | nil => rfl
    | cons y r =>
      have hy : y ∈ s := List.mem_reverse.mp (hr ▸ List.mem_cons_self)
      simp [hs y hy]
  unfold strim
  rw [hdrop, List.reverse_append, List.reverse_singleton, List.singleton_append,
    List.dropWhile_cons_of_pos hx, hrev, List.reverse_reverse]

theorem strimBuffer_append_blanks (isspace : α → Bool) (s : List α) {t : List α}
    (h : ∀ x ∈ t, isspace x = true) : strimBuffer isspace (s ++ t) = strimBuffer isspace s := by
  unfold strimBuffer
  rw [List.reverse_append, List.dropWhile_append_of_pos]
  intro x hx
  exact h x (List.mem_reverse.mp hx)

/-- What is cut off is blank. -/
theorem exists_strimBuffer_append (isspace : α → Bool) (s : List α) :
    ∃ t, (∀ x ∈ t, isspace x = true) ∧ strimBuffer isspace s ++ t = s := by
  refine ⟨(s.reverse.takeWhile isspace).reverse, ?_, ?_⟩
  · intro x hx
    exact List.mem_takeWhile_imp (List.mem_reverse.mp hx)
  · rw [strimBuffer, ← List.reverse_append, List.takeWhile_append_dropWhile, List.reverse_reverse]

theorem strimBuffer_idem (isspace : α → Bool) (s : List α) :
    strimBuffer isspace (strimBuffer isspace s) = strimBuffer isspace s := by
  obtain ⟨t, ht, hs⟩ := exists_strimBuffer_append isspace s
  conv_rhs => rw [← hs]
  exact (strimBuffer_append_blanks isspace _ ht).symm

/-- The buffer reads the same once it is cut. -/
theorem strim_strimBuffer (isspace : α → Bool) (s : List α) :
    strim isspace (strimBuffer isspace s) = strim isspace s := by
  obtain ⟨t, ht, hs⟩ := exists_strimBuffer_append isspace s
  generalize strimBuffer isspace s = r at hs
  subst hs
  show strimBuffer isspace (r.dropWhile isspace) = strimBuffer isspace ((r ++ t).dropWhile isspace)
  by_cases hr : ∀ x ∈ r, isspace x = true
  · have hrt : ∀ x ∈ r ++ t, isspace x = true := by
      intro x hx
      exact (List.mem_append.mp hx).elim (hr x) (ht x)
    rw [List.dropWhile_eq_nil_iff.mpr hr, List.dropWhile_eq_nil_iff.mpr hrt]
  · rw [List.dropWhile_append, if_neg, strimBuffer_append_blanks isspace _ ht]
    rw [List.isEmpty_iff, List.dropWhile_eq_nil_iff]
    exact hr

end Fixed.CString
