import Fixed.BinderParcel

/-!
The record table that client and service each carry, and the scan that looks
a name up in it. The scan does not stop at the first match: the last matching
entry is the one it leaves behind.
-/
namespace Fixed.NvramTable

open BinderParcel

structure Map where
  name : String8
  Lid : ℤ
  size : ℤ
deriving DecidableEq, Repr

/-- `char name[20]` and two integers. -/
def sizeof_Map : ℕ := 20 + 4 + 4

def sizeof_int : ℕ := 4

def sizeof_float : ℕ := 4

def cstr (s : String8) : String8 := s.takeWhile (· ≠ 0)

def streq (a b : String8) : Bool := cstr a == cstr b

def ascii (cs : List Char) : String8 := cs.map fun c => c.toNat.toUInt8

/-- The loop over the entries that leaves the last match in `mMap`. -/
def scan (name : String8) (entries : List Map) : Option Map :=
  entries.foldl (fun mMap e => if streq name e.name then some e else mMap) none

theorem streq_iff (a b : String8) : streq a b = true ↔ cstr a = cstr b := by
  simp [streq]

private theorem foldl_scan (name : String8) (entries : List Map) (acc : Option Map) :
    entries.foldl (fun mMap e => if streq name e.name then some e else mMap) acc =
      (scan name entries).or acc := by
  unfold scan
  induction entries generalizing acc with
  | nil => rfl
  | cons e es ih =>
    simp only [List.foldl_cons]
    rw [ih, ih (if streq name e.name then some e else none)]
    by_cases h : streq name e.name = true <;> simp [h]

/-- Entries scanned later override the ones before them. -/
theorem scan_append (name : String8) (front back : List Map) :
    scan name (front ++ back) = (scan name back).or (scan name front) := by
  rw [scan, List.foldl_append]
  exact foldl_scan name back (scan name front)

theorem scan_cons (name : String8) (e : Map) (es : List Map) :
    scan name (e :: es) =
      (scan name es).or (if streq name e.name then some e else none) := by
  rw [scan, List.foldl_cons]
  exact foldl_scan name es _

theorem scan_eq_none_iff (name : String8) (entries : List Map) :
    scan name entries = none ↔ ∀ e ∈ entries, streq name e.name = false := by
  induction entries with
  | nil => simp [scan]
  | cons e es ih =>
    rw [scan_cons, Option.or_eq_none_iff, ih]
    by_cases h : streq name e.name = true <;> simp [h]

/-- What the scan selects is an entry of that name. -/
theorem scan_eq_some {name : String8} {entries : List Map} {m : Map}
    (h : scan name entries = some m) : m ∈ entries ∧ streq name m.name = true := by
  induction entries with
  | nil => simp [scan] at h
  | cons e es ih =>
    rw [scan_cons, Option.or_eq_some_iff] at h
    rcases h with hes | ⟨-, he⟩
    · obtain ⟨hm, hn⟩ := ih hes
      exact ⟨List.mem_cons_of_mem e hm, hn⟩
    · by_cases hn : streq name e.name = true
      · rw [if_pos hn, Option.some.injEq] at he
        subst he
        exact ⟨List.mem_cons_self, hn⟩
      · rw [if_neg hn] at he
        exact absurd he (by simp)

/-- The scan depends on the name only up to its terminating zero. -/
theorem scan_congr {a b : String8} (h : cstr a = cstr b) (entries : List Map) :
    scan a entries = scan b entries := by
  have hs : ∀ n, streq a n = streq b n := fun n => by simp [streq, h]
  simp only [scan, hs]

end Fixed.NvramTable
