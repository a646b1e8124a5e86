import Fixed.NvramService

/-!
The NVRAM client library. The compiled `readNv` and `writeNv` open the record
file themselves and only send the backup transaction to the service; the
variants under `#if 0` move the record in chunks over Binder. The service is
a parameter here, absent while `nvram.service` is not published.
-/
namespace Fixed.NvramClient

open ByteFile BinderParcel NvramTable NvramDevice

def TRANSFER_LIMIT : ℕ := 1024 * 512

def map : List Map := [
  { name := ascii ['H', '1']
    Lid := 71
    size := sizeof_float * 20 },
  { name := ascii ['o', 'f', 'f', 'S', 'e', 't', 'S', 'i', 'd', 'e']
    Lid := 72
    size := sizeof_int * 200 },
  { name := ascii ['H']
    Lid := 73
    size := sizeof_float * 640 * 480 * 2 }]

def ERROR_SERVICE_NOT_FOUND : ℤ := -1
def ERROR_NO_FILE : ℤ := -2
def ERROR_PARAMETER : ℤ := -3
def ERROR_OPENLIDFILE : ℤ := -4

/-- One synchronous transaction: the device after it, and the reply data. -/
abbrev Binder := Nvram → ℕ → List UInt8 → Nvram × List UInt8

abbrev Buffer := ℕ → UInt8

def lookup (name : String8) : Option Map := scan name map

def transferSize (lib : Libnvram) (Lid : ℤ) (count : ℕ) : ℕ :=
  if count < size_t (lib.rec_size Lid * lib.rec_num Lid) then count
  else size_t (lib.rec_size Lid * lib.rec_num Lid)

def readNv (lib : Libnvram) (io : Io) (nv : Nvram) (name : String8) (buf : Option Buffer)
    (count : ℕ) : ℤ × Option Buffer :=
  match lookup name with
  | none => (ERROR_NO_FILE, buf)
  | some mMap =>
    match buf with
    | none => (ERROR_PARAMETER, none)
    | some dst =>
      if count ≤ 0 then (ERROR_PARAMETER, some dst)
      else
        let f_id := NVM_GetFileDesc io mMap.Lid
        if f_id.iFileDesc < 0 then (ERROR_OPENLIDFILE, some dst)
        else
          let (result, bs) := read nv io f_id (transferSize lib mMap.Lid count)
          (result, some (splice dst 0 bs))

/-- Result and device afterwards. The record is written before the service is
looked for. -/
def writeNv (lib : Libnvram) (io : Io) (binder : Option Binder) (nv : Nvram) (name : String8)
    (buf : Option Buffer) (count : ℕ) : ℤ × Nvram :=
  match lookup name with
  | none => (ERROR_NO_FILE, nv)
  | some mMap =>
    match buf with
    | none => (ERROR_PARAMETER, nv)
    | some src =>
      if count ≤ 0 then (ERROR_PARAMETER, nv)
      else
        let f_id := NVM_GetFileDesc io mMap.Lid
        if f_id.iFileDesc < 0 then (ERROR_OPENLIDFILE, nv)
        else
          let (result, nv) := write nv io f_id src (transferSize lib mMap.Lid count)
          -- backup to nvram
          match binder with
          | none => (ERROR_SERVICE_NOT_FOUND, nv)
          | some transact => (result, (transact nv 2 []).1)

/-- The length of chunk `i`. Its start lies below `count` for every chunk the
loops send, so the unsigned subtraction does not wrap. -/
def chunkSize (count i : ℕ) : ℕ :=
  if count - TRANSFER_LIMIT * i < TRANSFER_LIMIT then count - TRANSFER_LIMIT * i
  else TRANSFER_LIMIT

def chunkHeader (P : Parcel) (name : String8) (i count : ℕ) (payload : List UInt8) :
    List UInt8 :=
  P.writeString8 name ++ (P.writeInt32 (chunkSize count i) ++
    (P.writeInt32 (TRANSFER_LIMIT * i : ℕ) ++ payload))

def readInner (P : Parcel) (transact : Binder) (nv : Nvram) (name : String8) (i count : ℕ)
    (buf : Buffer) : Nvram × Buffer :=
  let (nv, reply) := transact nv 0 (chunkHeader P name i count [])
  (nv, splice buf (TRANSFER_LIMIT * i) reply)

def writeInner (P : Parcel) (transact : Binder) (nv : Nvram) (name : String8) (i count : ℕ)
    (buf : Buffer) : Nvram :=
  let payload := P.write (block buf (TRANSFER_LIMIT * i) (chunkSize count i))
  (transact nv 1 (chunkHeader P name i count payload)).1

def loopCount (mMap : Map) (count : ℕ) : ℕ :=
  let size := if count < size_t mMap.size then count else size_t mMap.size
  size / TRANSFER_LIMIT + if size % TRANSFER_LIMIT = 0 then 0 else 1

namespace Chunked

/-- The variant under `#if 0`; `binder i` serves its `i`-th transaction. -/
def readNv (P : Parcel) (binder : Option (ℕ → Binder)) (nv : Nvram) (name : String8)
    (buf : Option Buffer) (count : ℕ) : ℤ × Nvram × Option Buffer :=
  match binder with
  | none => (ERROR_SERVICE_NOT_FOUND, nv, buf)
  | some transact =>
    match lookup name with
    | none => (ERROR_NO_FILE, nv, buf)
    | some mMap =>
      match buf with
      | none => (ERROR_PARAMETER, nv, none)
      | some dst =>
        if count ≤ 0 then (ERROR_PARAMETER, nv, some dst)
        else
          let (nv, dst) := (List.range (loopCount mMap count)).foldl
            (fun s i => readInner P (transact i) s.1 name i count s.2) (nv, dst)
          (0, nv, some dst)

def writeNv (P : Parcel) (binder : Option (ℕ → Binder)) (nv : Nvram) (name : String8)
    (buf : Option Buffer) (count : ℕ) : ℤ × Nvram :=
  match binder with
  | none => (ERROR_SERVICE_NOT_FOUND, nv)
  | some transact =>
    match lookup name with
    | none => (ERROR_NO_FILE, nv)
    | some mMap =>
      match buf with
      | none => (ERROR_PARAMETER, nv)
      | some src =>
        if count ≤ 0 then (ERROR_PARAMETER, nv)
        else
          let nv := (List.range (loopCount mMap count)).foldl
            (fun nv i => writeInner P (transact i) nv name i count src) nv
          -- backup to nvram
          (0, (transact (loopCount mMap count) nv 2 []).1)

end Chunked

def served (P : Parcel) (host : NvramService.Host) (io : Io) : Binder := fun nv code data =>
  ((NvramService.onTransact P host io nv code data).nv,
    (NvramService.onTransact P host io nv code data).reply)

/-- The service process carries the same table. -/
theorem map_eq : NvramService.map = map := rfl

theorem transferSize_eq_min {lib : Libnvram} {Lid : ℤ} {S : ℕ}
    (hS : lib.rec_size Lid * lib.rec_num Lid = S) (hlt : S < 2 ^ 31) (count : ℕ) :
    transferSize lib Lid count = min count S := by
  have hsize : size_t (lib.rec_size Lid * lib.rec_num Lid) = S := by
    rw [hS]
    exact size_t_natCast (by omega)
  unfold transferSize
  rw [hsize]
  split <;> omega

theorem chunkSize_eq_min (count i : ℕ) :
    chunkSize count i = min TRANSFER_LIMIT (count - TRANSFER_LIMIT * i) := by
  unfold chunkSize
  split <;> omega

section Calls

variable {lib : Libnvram} {io : Io} {nv : Nvram} {name : String8} {mMap : Map} {count S : ℕ}
  (hname : lookup name = some mMap) (hcount : 0 < count) (hio : io.Ideal)
  (hS : lib.rec_size mMap.Lid * lib.rec_num mMap.Lid = S) (hlt : S < 2 ^ 31)

include hname hcount hio hS hlt

/-- A `readNv` that meets no error delivers the head of the record. -/
theorem readNv_eq (dst : Buffer) :
    readNv lib io nv name (some dst) count =
      (((slice (nv.file mMap.Lid) 0 (min count S)).length : ℤ),
        some (splice dst 0 (slice (nv.file mMap.Lid) 0 (min count S)))) := by
  have hopen : ¬ (NVM_GetFileDesc io mMap.Lid).iFileDesc < 0 := not_lt.mpr hio.1
  have hgrant : io.granted (NVM_GetFileDesc io mMap.Lid).iFileDesc (min count S) =
      some (min count S) := granted_ideal hio (by unfold SSIZE_MAX; omega)
  simp only [readNv, hname]
  rw [if_neg (by omega), if_neg hopen, transferSize_eq_min hS hlt]
  simp only [NvramDevice.read, hgrant, NVM_GetFileDesc_Lid, NVM_GetFileDesc_pos]

/-- A `writeNv` that meets no error replaces the head of the record, then
sends the backup transaction. -/
theorem writeNv_eq (transact : Binder) (src : Buffer) :
    (writeNv lib io (some transact) nv name (some src) count).2 =
      (transact (nv.put mMap.Lid 0 (block src 0 (min count S))) 2 []).1 := by
  have hopen : ¬ (NVM_GetFileDesc io mMap.Lid).iFileDesc < 0 := not_lt.mpr hio.1
  have hgrant : io.granted (NVM_GetFileDesc io mMap.Lid).iFileDesc (min count S) =
      some (min count S) := granted_ideal hio (by unfold SSIZE_MAX; omega)
  simp only [writeNv, hname]
  rw [if_neg (by omega), if_neg hopen, transferSize_eq_min hS hlt]
  dsimp only
  rw [write_of_granted hgrant, NVM_GetFileDesc_Lid, NVM_GetFileDesc_pos]

/-- The backup transaction touches no record. -/
theorem writeNv_served_file (P : Parcel) (host : NvramService.Host) (io' : Io) (src : Buffer) :
    (writeNv lib io (some (served P host io')) nv name (some src) count).2.file =
      (nv.put mMap.Lid 0 (block src 0 (min count S))).file := by
  rw [writeNv_eq hname hcount hio hS hlt]
  exact NvramService.onTransact_file (by decide)

end Calls

section Sample

/-- Behind the table lie entries with a name no caller uses. -/
def quietHost : NvramService.Host where
  after _ := ⟨[1], 0, 0⟩
  reserved _ := 0
  beyond _ := 0

def idealIo : Io := ⟨3, some⟩

theorem idealIo_ideal : idealIo.Ideal := ⟨by decide, fun _ => rfl⟩

def tableLib : Libnvram where
  rec_size Lid := ((map.find? fun m => m.Lid = Lid).map Map.size).getD 0
  rec_num _ := 1

def blankNvram : Nvram where
  file Lid := List.replicate (tableLib.rec_size Lid).toNat 0
  props := []

end Sample

end Fixed.NvramClient
