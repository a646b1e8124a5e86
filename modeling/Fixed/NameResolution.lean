import Fixed.NvramClient

/-!
How client and service find the record of a name. All loops scan a table of
three entries and keep the last match, the client's up to the number of
entries, the service's up to the size of the table in bytes. So the service
reads past its table for every name, and selects the record the client selects
exactly when no other record of that name happens to lie behind the table.
-/
namespace Fixed.NameResolution

open BinderParcel NvramTable NvramService

/-- The look-up loop up to a bound: the indices read, and the last match. -/
def lookupLoop (name : String8) (entry : ℕ → Map) (bound : ℕ) : List ℕ × Option Map :=
  (List.range bound).foldl
    (fun s i => (s.1 ++ [i], if streq name (entry i).name then some (entry i) else s.2)) ([], none)

/-- The loop of `onTransact`, bounded by `sizeof(map)`. -/
def serviceLoop (host : Host) (name : String8) : List ℕ × Option Map :=
  lookupLoop name host.entry sizeof_map

/-- The loops of `readNv` and `writeNv`, bounded by `sizeof(map)/sizeof(map[0])`. -/
def clientLoop (host : Host) (name : String8) : List ℕ × Option Map :=
  lookupLoop name (fun i => (NvramClient.map[i]?).getD (host.after (i - NvramClient.map.length)))
    (NvramClient.map.length * sizeof_Map / sizeof_Map)

def selected (found : Option Map) : Option (ℤ × ℤ) := found.map fun m => (m.Lid, m.size)

/-- The service reads only entries of its table, and selects what the client does. -/
structure ResolvesAlike (host client : Host) (name : String8) : Prop where
  in_table : ∀ i ∈ (serviceLoop host name).1, i < NvramService.map.length
  alike : selected (serviceLoop host name).2 = selected (clientLoop client name).2

theorem lookupLoop_eq (name : String8) (entry : ℕ → Map) (bound : ℕ) :
    lookupLoop name entry bound =
      (List.range bound, scan name ((List.range bound).map entry)) := by
  induction bound with
  | zero => rfl
  | succ n ih =>
    unfold lookupLoop at ih ⊢
    rw [List.range_succ, List.foldl_append, ih, List.map_append, scan_append]
    by_cases hmatch : streq name (entry n).name = true
    · simp [scan, hmatch]
    · simp [scan, hmatch]

theorem serviceLoop_eq (host : Host) (name : String8) :
    serviceLoop host name = (List.range sizeof_map, NvramService.lookup host name) :=
  lookupLoop_eq name host.entry sizeof_map

/-- The client reads its own three entries, whatever lies behind them. -/
theorem clientLoop_eq (client : Host) (name : String8) :
    clientLoop client name =
      (List.range NvramClient.map.length, NvramClient.lookup name) :=
  lookupLoop_eq name _ NvramClient.map.length

/-- For no name and no memory behind the table does the service stay inside it. -/
theorem not_resolvesAlike (host client : Host) (name : String8) :
    ¬ ResolvesAlike host client name := by
  intro h
  have hread : 3 ∈ (serviceLoop host name).1 := by
    rw [serviceLoop_eq]
    exact List.mem_range.mpr (by decide)
  exact absurd (h.in_table 3 hread) (by decide)

/-- The look-up of a name of the table reads on to the index `sizeof(map) - 1`. -/
theorem lookup_reads_behind_table :
    ¬ ∀ host client name, ResolvesAlike host client name := by
  intro hall
  have hin := (hall NvramClient.quietHost NvramClient.quietHost (ascii ['H', '1'])).in_table 83
  rw [serviceLoop_eq, List.mem_range] at hin
  exact absurd (hin (by decide)) (by decide)

/-- The record is the same exactly when the last entry of that name behind the
table, if there is one, gives the Lid and size of the one in it. -/
theorem selected_eq_iff (host client : Host) (name : String8) :
    selected (serviceLoop host name).2 = selected (clientLoop client name).2 ↔
      ∀ m, scan name ((List.range 81).map host.after) = some m →
        selected (some m) = selected (scan name NvramService.map) := by
  rw [serviceLoop_eq, clientLoop_eq, NvramService.lookup_eq, NvramClient.lookup,
    ← NvramClient.map_eq]
  cases scan name ((List.range 81).map host.after) with
  | none => simp
  | some m => simp

end Fixed.NameResolution
