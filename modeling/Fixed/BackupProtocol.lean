import Fixed.NvramClient

/-!
The backup step that ends `writeNv`. The client sends code 2 with an empty
parcel, the service reads that parcel as a request for the record with the
empty name, finds no such record and answers `NO_ERROR` before it looks at
the code. So the branch that sets `persist.nvram.backup` is never reached.
-/
namespace Fixed.BackupProtocol

open BinderParcel NvramTable NvramDevice NvramService NvramClient

def BackedUp (before after : Nvram) : Prop :=
  after.props = before.props ++ [("persist.nvram.backup", "1")]

theorem not_backedUp_of_props {before after : Nvram} (h : after.props = before.props) :
    ¬ BackedUp before after := by
  intro hb
  have hlen := congrArg List.length (hb.symm.trans h)
  simp at hlen

/-- The empty name is in no table entry, so it is found only behind the table. -/
theorem lookup_empty {host : Host} (h : host.NoMatch []) : NvramService.lookup host [] = none := by
  rw [lookup_of_noMatch h]
  decide

/-- An empty request is answered before its code is looked at. -/
theorem onTransact_empty (P : Parcel) {host : Host} (h : host.NoMatch []) (io : Io) (nv : Nvram)
    (code : ℕ) : onTransact P host io nv code [] = ⟨nv, [], .NO_ERROR⟩ := by
  apply onTransact_of_none
  rw [parse_nil]
  exact lookup_empty h

/-- No outcome of `writeNv` sets a property. -/
theorem writeNv_props (P : Parcel) {host : Host} (h : host.NoMatch []) (lib : Libnvram)
    (io io' : Io) (nv : Nvram) (name : String8) (buf : Option Buffer) (count : ℕ) :
    (writeNv lib io (some (served P host io')) nv name buf count).2.props = nv.props := by
  unfold writeNv
  cases NvramClient.lookup name with
  | none => rfl
  | some mMap =>
    cases buf with
    | none => rfl
    | some src =>
      dsimp only
      split
      · rfl
      · split
        · rfl
        · simp only [served, onTransact_empty P h, write_props]

/-- Whatever is written and whatever the call returns, the backup is not set. -/
theorem backup_never_set (P : Parcel) (host : Host) (h : host.NoMatch []) (lib : Libnvram)
    (io io' : Io) (nv : Nvram) (name : String8) (buf : Option Buffer) (count : ℕ) :
    ¬ BackedUp nv (writeNv lib io (some (served P host io')) nv name buf count).2 :=
  not_backedUp_of_props (writeNv_props P h lib io io' nv name buf count)

theorem quietHost_noMatch_empty : quietHost.NoMatch [] := by
  intro i
  rfl

theorem backup_never_set_H1 :
    ¬ BackedUp blankNvram (writeNv tableLib idealIo (some (served binderParcel quietHost idealIo))
      blankNvram (ascii ['H', '1']) (some fun _ => 7) 80).2 :=
  backup_never_set binderParcel quietHost quietHost_noMatch_empty tableLib idealIo idealIo
    blankNvram (ascii ['H', '1']) (some fun _ => 7) 80

/-- A successful write of the whole record `H1` with the service published
returns 80 and leaves the backup property unset. -/
theorem successful_write_without_backup :
    quietHost.NoMatch [] ∧
    (writeNv tableLib idealIo (some (served binderParcel quietHost idealIo))
      blankNvram (ascii ['H', '1']) (some fun _ => 7) 80).1 = 80 ∧
    ¬ BackedUp blankNvram (writeNv tableLib idealIo (some (served binderParcel quietHost idealIo))
      blankNvram (ascii ['H', '1']) (some fun _ => 7) 80).2 := by
  refine ⟨quietHost_noMatch_empty, by decide, ?_⟩
  exact not_backedUp_of_props (writeNv_props _ quietHost_noMatch_empty _ _ _ _ _ _ _)

end Fixed.BackupProtocol
