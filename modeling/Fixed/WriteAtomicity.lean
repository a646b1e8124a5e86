import Fixed.NvramClient

/-!
What a failed `writeNv` leaves behind. The compiled variant writes the record
and only then looks for the service, so with the service missing it reports an
error after the write. A negative result means an untouched record exactly when
the service is published or the write moves no byte that is new; the variant
under `#if 0`, which looks for the service first, has this for every input.
-/
namespace Fixed.WriteAtomicity

open ByteFile BinderParcel NvramTable NvramDevice NvramClient

structure Service where
  parcel : Parcel
  host : NvramService.Host
  io : Io

def Service.binder (service : Service) : Binder := served service.parcel service.host service.io

section Write

variable (lib : Libnvram) (io : Io) (service : Option Service) (nv : Nvram) (name : String8)
  (buf : Option Buffer) (count : ℕ)

def AllOrNothing : Prop :=
  (writeNv lib io (service.map Service.binder) nv name buf count).1 < 0 →
    (writeNv lib io (service.map Service.binder) nv name buf count).2.file = nv.file

def NothingNew : Prop :=
  ∀ m src n, NvramClient.lookup name = some m → buf = some src → 0 < count →
    io.granted io.fd (transferSize lib m.Lid count) = some n →
    ∀ k < n, (nv.file m.Lid)[k]? = some (src k)

end Write

/-- A write at the head of a record changes none exactly if it brings nothing new. -/
theorem put_file_eq_iff (nv : Nvram) (Lid : ℤ) (src : ℕ → UInt8) (n : ℕ) :
    (nv.put Lid 0 (block src 0 n)).file = nv.file ↔
      ∀ k < n, (nv.file Lid)[k]? = some (src k) := by
  have hself := put_file_self nv Lid 0 (block src 0 n)
  constructor
  · intro heq k hk
    have hget := getElem?_overwrite_block 0 (nv.file Lid) src n k
    rwa [← hself, heq, if_pos hk] at hget
  · intro hsame
    funext Lid'
    by_cases hLid : Lid' = Lid
    · subst hLid
      rw [hself]
      apply List.ext_getElem?
      intro k
      rw [getElem?_overwrite_block]
      split
      · rename_i hk
        exact (hsame k hk).symm
      · rfl
    · exact put_file_of_ne nv hLid 0 _

section Reached

variable {lib : Libnvram} {io : Io} {service : Option Service} {nv : Nvram} {name : String8}
  {m : Map} {src : Buffer} {count : ℕ}

/-- The outcome of `writeNv` once the record file is open. -/
theorem writeNv_reached (binder : Option Binder) (hname : NvramClient.lookup name = some m)
    (hcount : 0 < count) (hfd : 0 ≤ io.fd) :
    writeNv lib io binder nv name (some src) count =
      match binder with
      | none => (ERROR_SERVICE_NOT_FOUND,
          (write nv io (NVM_GetFileDesc io m.Lid) src (transferSize lib m.Lid count)).2)
      | some transact =>
          ((write nv io (NVM_GetFileDesc io m.Lid) src (transferSize lib m.Lid count)).1,
            (transact (write nv io (NVM_GetFileDesc io m.Lid) src
              (transferSize lib m.Lid count)).2 2 []).1) := by
  have hopen : ¬ (NVM_GetFileDesc io m.Lid).iFileDesc < 0 := not_lt.mpr hfd
  have hpos : ¬ count ≤ 0 := not_le.mpr hcount
  simp only [writeNv, hname]
  exact (if_neg hpos).trans (if_neg hopen)

/-- A `writeNv` that does not get to the open file changes nothing. -/
theorem writeNv_of_not_reached {buf : Option Buffer} (binder : Option Binder)
    (h : ∀ m src, NvramClient.lookup name = some m → buf = some src → 0 < count → io.fd < 0) :
    (writeNv lib io binder nv name buf count).2 = nv := by
  cases hname : NvramClient.lookup name with
  | none => simp only [writeNv, hname]
  | some m =>
    cases buf with
    | none => simp only [writeNv, hname]
    | some src =>
      by_cases hcount : count ≤ 0
      · simp only [writeNv, hname, if_pos hcount]
      · have hopen : (NVM_GetFileDesc io m.Lid).iFileDesc < 0 :=
          h m src hname rfl (not_le.mp hcount)
        simp only [writeNv, hname]
        rw [if_neg hcount, if_pos hopen]

/-- A write with a negative result has written nothing. -/
theorem write_of_neg {f : F_ID} {n : ℕ} (h : (write nv io f src n).1 < 0) :
    (write nv io f src n).2 = nv := by
  cases hg : io.granted f.iFileDesc n with
  | none => exact write_of_refused hg
  | some k =>
    simp only [write, hg] at h
    omega

/-- With the service published, only a failed write gives a negative result. -/
theorem allOrNothing_of_published (s : Service) (hname : NvramClient.lookup name = some m)
    (hcount : 0 < count) (hfd : 0 ≤ io.fd) :
    AllOrNothing lib io (some s) nv name (some src) count := by
  intro hneg
  rw [Option.map_some, writeNv_reached _ hname hcount hfd] at hneg ⊢
  have hsame := write_of_neg hneg
  rw [hsame]
  exact NvramService.onTransact_file (by omega)

/-- With the service missing, the result is negative whatever was written. -/
theorem allOrNothing_of_missing_iff (hname : NvramClient.lookup name = some m)
    (hcount : 0 < count) (hfd : 0 ≤ io.fd) :
    AllOrNothing lib io none nv name (some src) count ↔
      NothingNew lib io nv name (some src) count := by
  have hcall : writeNv lib io none nv name (some src) count = _ :=
    writeNv_reached none hname hcount hfd
  unfold AllOrNothing NothingNew
  rw [Option.map_none, hcall]
  cases hg : io.granted io.fd (transferSize lib m.Lid count) with
  | none =>
    have hsame : (write nv io (NVM_GetFileDesc io m.Lid) src (transferSize lib m.Lid count)).2 =
        nv := write_of_refused hg
    simp only [hsame, implies_true, true_iff]
    intro m' src' n hm' _ _ hn
    obtain rfl := Option.some.inj (hname.symm.trans hm')
    simp [hg] at hn
  | some n =>
    have hput : (write nv io (NVM_GetFileDesc io m.Lid) src (transferSize lib m.Lid count)).2 =
        nv.put m.Lid 0 (block src 0 n) := write_of_granted hg
    simp only [hput, put_file_eq_iff]
    constructor
    · intro hall m' src' n' hm' hsrc' _ hn'
      obtain rfl := Option.some.inj (hname.symm.trans hm')
      obtain rfl := Option.some.inj hsrc'
      obtain rfl := Option.some.inj (hg.symm.trans hn')
      exact hall (by decide)
    · intro hall _
      exact hall m src n hname rfl hcount hg

end Reached

/-- A negative result of `writeNv` means that no record changed exactly when the
service is published or the write moves no byte that is new. -/
theorem allOrNothing_iff (lib : Libnvram) (io : Io) (service : Option Service) (nv : Nvram)
    (name : String8) (buf : Option Buffer) (count : ℕ) :
    AllOrNothing lib io service nv name buf count ↔
      service.isSome ∨ NothingNew lib io nv name buf count := by
  by_cases hreach : ∃ m src, NvramClient.lookup name = some m ∧ buf = some src ∧ 0 < count ∧
      0 ≤ io.fd
  · obtain ⟨m, src, hname, rfl, hcount, hfd⟩ := hreach
    cases service with
    | none => simpa using allOrNothing_of_missing_iff hname hcount hfd
    | some s => simpa using allOrNothing_of_published s hname hcount hfd
  · have hclosed : ∀ m src, NvramClient.lookup name = some m → buf = some src → 0 < count →
        io.fd < 0 := by
      intro m src hname hbuf hcount
      by_contra hfd
      exact hreach ⟨m, src, hname, hbuf, hcount, not_lt.mp hfd⟩
    have hsame : (writeNv lib io (service.map Service.binder) nv name buf count).2 = nv :=
      writeNv_of_not_reached _ hclosed
    constructor
    · intro _
      refine Or.inr fun m src n hname hbuf hcount hgrant => ?_
      exact absurd (granted_fd hgrant) (not_le.mpr (hclosed m src hname hbuf hcount))
    · intro _ _
      rw [hsame]

/-- The chunked variant reports an error only before it sends anything. -/
theorem chunked_unchanged_of_neg (P : Parcel) (binder : Option (ℕ → Binder)) (nv : Nvram)
    (name : String8) (buf : Option Buffer) (count : ℕ)
    (h : (Chunked.writeNv P binder nv name buf count).1 < 0) :
    (Chunked.writeNv P binder nv name buf count).2 = nv := by
  cases binder with
  | none => rfl
  | some transact =>
    cases hname : NvramClient.lookup name with
    | none => simp only [Chunked.writeNv, hname]
    | some m =>
      cases buf with
      | none => simp only [Chunked.writeNv, hname]
      | some src =>
        by_cases hcount : count ≤ 0
        · simp only [Chunked.writeNv, hname, if_pos hcount]
        · simp only [Chunked.writeNv, hname, if_neg hcount] at h
          omega

/-- One byte written to a blank record while the service is missing. -/
theorem missing_service_reported_after_write :
    ¬ ∀ lib io service nv name buf count, AllOrNothing lib io service nv name buf count := by
  intro hall
  have hname : NvramClient.lookup (ascii ['H', '1']) = some ⟨ascii ['H', '1'], 71, 80⟩ := rfl
  have hcall := hall tableLib idealIo none blankNvram (ascii ['H', '1']) (some fun _ => 1) 1
  have hnew := (allOrNothing_of_missing_iff hname (by omega) idealIo_ideal.1).mp hcall
  have hbyte : (blankNvram.file 71)[0]? = some 1 :=
    hnew _ _ 1 hname rfl (by omega) rfl 0 (by omega)
  exact absurd hbyte (by decide)

end Fixed.WriteAtomicity
