import Mathlib.Data.Finset.Card
import Mathlib.Data.Int.Basic
import Mathlib.Tactic.Common

/-!
Objects of one kind that are allocated and released again. A pointer that an
allocation returns is either to a new object or an error code; a ledger keeps
which objects are live, and counts the releases of what is not a live object.
-/
namespace Fixed.ObjectLedger

inductive Ptr
  | null
  | err (e : ℤ)
  | obj (n : ℕ)
deriving DecidableEq, Repr

def Ptr.IsObj : Ptr → Prop
  | .obj _ => True
  | _ => False

instance : DecidablePred Ptr.IsObj
  | .null => .isFalse id
  | .err _ => .isFalse id
  | .obj _ => .isTrue trivial

/-- The objects of one kind, numbered in the order of their allocation. -/
structure Ledger where
  made : ℕ
  live : Finset ℕ
  faults : ℕ
  lt_made : ∀ n ∈ live, n < made

namespace Ledger

def empty : Ledger := ⟨0, ∅, 0, by simp⟩

def alloc (l : Ledger) : Ledger where
  made := l.made + 1
  live := insert l.made l.live
  faults := l.faults
  lt_made := by
    intro n hn
    rcases Finset.mem_insert.mp hn with rfl | hn
    · exact Nat.lt_succ_self _
    · exact (l.lt_made n hn).trans (Nat.lt_succ_self _)

def release (l : Ledger) : Ptr → Ledger
  | .null => l
  | .err _ => { l with faults := l.faults + 1 }
  | .obj n =>
    if n ∈ l.live then
      { l with
        live := l.live.erase n
        lt_made := fun m hm => l.lt_made m (Finset.mem_of_mem_erase hm) }
    else { l with faults := l.faults + 1 }

/-- At most one object is live, and nothing but live objects was released. -/
structure Single (l : Ledger) : Prop where
  one : l.live.card ≤ 1
  released : l.faults = 0

variable {l : Ledger}

theorem made_notMem (l : Ledger) : l.made ∉ l.live := by
  intro hmem
  exact Nat.lt_irrefl _ (l.lt_made _ hmem)

@[simp] theorem alloc_live (l : Ledger) : l.alloc.live = insert l.made l.live := rfl

@[simp] theorem release_err_faults (l : Ledger) (e : ℤ) :
    (l.release (.err e)).faults = l.faults + 1 := rfl

theorem release_live {n : ℕ} (h : n ∈ l.live) : (l.release (.obj n)).live = l.live.erase n := by
  rw [release, if_pos h]

theorem release_faults {n : ℕ} (h : n ∈ l.live) : (l.release (.obj n)).faults = l.faults := by
  rw [release, if_pos h]

/-- With nothing live, a release leaves it at that. -/
theorem release_live_empty (h : l.live = ∅) (p : Ptr) : (l.release p).live = ∅ := by
  cases p with
  | null => exact h
  | err e => exact h
  | obj n =>
    rw [release, if_neg (by rw [h]; exact Finset.notMem_empty n)]
    exact h

theorem release_gone {n : ℕ} (h : n ∉ l.live) :
    (l.release (.obj n)).faults = l.faults + 1 := by
  rw [release, if_neg h]

theorem release_subset (l : Ledger) (p : Ptr) : (l.release p).live ⊆ l.live := by
  cases p with
  | null => exact subset_rfl
  | err e => exact subset_rfl
  | obj n =>
    rw [release]
    split
    · exact Finset.erase_subset n l.live
    · exact subset_rfl

theorem release_faults_le (l : Ledger) (p : Ptr) : l.faults ≤ (l.release p).faults := by
  cases p with
  | null => exact Nat.le_refl _
  | err e => exact Nat.le_succ _
  | obj n =>
    rw [release]
    split
    · exact Nat.le_refl _
    · exact Nat.le_succ _

theorem release_alloc_live (l : Ledger) : (l.alloc.release (.obj l.made)).live = l.live := by
  rw [release_live (Finset.mem_insert_self _ _), alloc_live, Finset.erase_insert l.made_notMem]

theorem release_alloc_faults (l : Ledger) :
    (l.alloc.release (.obj l.made)).faults = l.faults :=
  release_faults (Finset.mem_insert_self _ _)

/-- Allocating beside a live object makes two. -/
theorem not_single_alloc {n : ℕ} (h : n ∈ l.live) : ¬ l.alloc.Single := by
  intro hs
  have hcard := hs.one
  rw [alloc_live, Finset.card_insert_of_notMem l.made_notMem] at hcard
  have hpos := Finset.card_pos.mpr ⟨n, h⟩
  omega

end Ledger

end Fixed.ObjectLedger
