import Mathlib.Data.List.Induction
import Mathlib.Tactic.Common

/-!
Cells under partial updates. An update says for each cell whether it stores a
value there. After any sequence of updates a cell holds what the latest update
that covers it stored, or its initial value where none covers it. A machine
whose steps act on an observation of its state by such updates obeys the same
law in every run.
-/
namespace Fixed.LastWriter

variable {C α S E : Type*}

abbrev Update (C α : Type*) := C → Option α

def assign (m : C → α) (u : Update C α) : C → α := fun c => (u c).getD (m c)

/-- What the latest of the updates, taken in order, stores in the cell. -/
def latest (us : List (Update C α)) (c : C) : Option α := us.reverse.findSome? fun u => u c

theorem latest_append_singleton (us : List (Update C α)) (u : Update C α) (c : C) :
    latest (us ++ [u]) c = (u c).or (latest us c) := by
  simp only [latest, List.reverse_append, List.reverse_cons, List.reverse_nil, List.nil_append,
    List.singleton_append, List.findSome?_cons]
  cases u c <;> rfl

/-- The last-writer law. -/
theorem foldl_assign (m : C → α) (us : List (Update C α)) (c : C) :
    us.foldl assign m c = (latest us c).getD (m c) := by
  induction us using List.reverseRecOn with
  | nil => rfl
  | append_singleton us u ih =>
    rw [List.foldl_append, latest_append_singleton]
    change (u c).getD (us.foldl assign m c) = ((u c).or (latest us c)).getD (m c)
    rw [ih]
    cases u c <;> rfl

/-- The last-writer law of a machine whose steps act on the observed cells by
the updates of their events. -/
theorem observe_foldl {step : S → E → S} {obs : S → C → α} {upd : E → Update C α}
    (hobs : ∀ s e, obs (step s e) = assign (obs s) (upd e)) (s : S) (es : List E) (c : C) :
    obs (es.foldl step s) c = (latest (es.map upd) c).getD (obs s c) := by
  have hrun : obs (es.foldl step s) = (es.map upd).foldl assign (obs s) := by
    induction es generalizing s with
    | nil => rfl
    | cons e es ih =>
      rw [List.foldl_cons, ih (step s e), hobs s e]
      rfl
  rw [hrun, foldl_assign]

/-- An invariant of the steps of a total machine holds after every run. -/
theorem foldl_invariant {step : S → E → S} {I : S → Prop} (hI : ∀ s e, I s → I (step s e))
    {s : S} (hs : I s) (es : List E) : I (es.foldl step s) := by
  induction es generalizing s with
  | nil => exact hs
  | cons e es ih => exact ih (hI s e hs)

end Fixed.LastWriter
