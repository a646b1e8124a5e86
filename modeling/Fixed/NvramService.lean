import Fixed.NvramTable
import Fixed.NvramDevice

/-!
The `nvram.service` process. Every transaction is first read as a name, a
size and an offset, and the name is looked up, before the code is examined.
The look-up loop runs to the size of the table in bytes and so reads object
memory behind the table as if it held entries; that memory, the memory behind
the request and the content of reserved reply bytes are those of the host.
-/
namespace Fixed.NvramService

open ByteFile BinderParcel NvramTable NvramDevice

def map : List Map := [
  { name := ascii ['H', '1']
    Lid := 71
    size := sizeof_float * 20 },
  { name := ascii ['o', 'f', 'f', 'S', 'e', 't', 'S', 'i', 'd', 'e']
    Lid := 72
    size := sizeof_int * 200 },
  { name := ascii ['H']
    Lid := 73
    size := sizeof_float * 640 * 480 * 2 }]

def sizeof_map : ℕ := map.length * sizeof_Map

/-- The memory contents a transaction can meet besides its own data. -/
structure Host where
  /-- The memory behind the table, read as entries. -/
  after : ℕ → Map
  /-- The bytes `writeInplace` hands out. -/
  reserved : ℕ → UInt8
  /-- The bytes behind the data of the request. -/
  beyond : ℕ → UInt8

/-- `map[i]`, also where `i` is past the table. -/
def Host.entry (host : Host) (i : ℕ) : Map :=
  (map[i]?).getD (host.after (i - map.length))

def lookup (host : Host) (name : String8) : Option Map :=
  scan name ((List.range sizeof_map).map host.entry)

inductive Status
  | NO_ERROR
  /-- The answer of `BBinder::onTransact`. -/
  | base
deriving DecidableEq, Repr

structure Request where
  name : String8
  readWriteSize : ℤ
  offset : ℤ
  payload : List UInt8

def Request.parse (P : Parcel) (data : List UInt8) : Request :=
  let (name, data) := P.readString8 data
  let (readWriteSize, data) := P.readInt32 data
  let (offset, data) := P.readInt32 data
  ⟨name, readWriteSize, offset, data⟩

def named (q : Request) : Option Map := scan q.name map

/-- Result and reply data. The open is not checked, and the reply keeps the
size of the request whatever `read` returns. -/
def readFromNv (host : Host) (io : Io) (nv : Nvram) (mMap : Map) (offset size : ℤ) :
    ℤ × List UInt8 :=
  let f_id := lseek (NVM_GetFileDesc io mMap.Lid) offset
  match writeInplace host.reserved (size_t size) with
  | none => (0, [])
  | some nvdata =>
    let (result, bs) := read nv io f_id (size_t size)
    (result, bs ++ nvdata.drop bs.length)

def nvdata (host : Host) (payload : List UInt8) (k : ℕ) : UInt8 :=
  (payload[k]?).getD (host.beyond (k - payload.length))

def writeToNv (host : Host) (io : Io) (nv : Nvram) (mMap : Map) (offset size : ℤ)
    (payload : List UInt8) : ℤ × Nvram :=
  let f_id := lseek (NVM_GetFileDesc io mMap.Lid) offset
  write nv io f_id (nvdata host payload) (size_t size)

def property_set (nv : Nvram) (key value : String) : Nvram :=
  { nv with props := nv.props ++ [(key, value)] }

/-- As far as the request reaches, what is written came with it. -/
theorem block_nvdata (host : Host) {payload : List UInt8} {n : ℕ} (h : n ≤ payload.length) :
    block (nvdata host payload) 0 n = payload.take n := by
  apply List.ext_getElem?
  intro k
  rw [getElem?_block, List.getElem?_take, Nat.zero_add]
  split
  · rw [nvdata, List.getElem?_eq_getElem (by omega), Option.getD_some]
  · rfl

structure Outcome where
  nv : Nvram
  reply : List UInt8
  status : Status

def onTransact (P : Parcel) (host : Host) (io : Io) (nv : Nvram) (code : ℕ)
    (data : List UInt8) : Outcome :=
  let q := Request.parse P data
  match lookup host q.name with
  | none => ⟨nv, [], .NO_ERROR⟩
  | some mMap =>
    match code with
    -- read from Nvram
    | 0 => ⟨nv, (readFromNv host io nv mMap q.offset q.readWriteSize).2, .NO_ERROR⟩
    -- write to Nvram
    | 1 => ⟨(writeToNv host io nv mMap q.offset q.readWriteSize q.payload).2, [], .NO_ERROR⟩
    | 2 => ⟨property_set nv "persist.nvram.backup" "1", [], .NO_ERROR⟩
    | _ => ⟨nv, [], .base⟩

/-- No entry-shaped memory behind the table carries the name. -/
def Host.NoMatch (host : Host) (name : String8) : Prop :=
  ∀ i, streq name (host.after i).name = false

theorem entries_eq (host : Host) :
    (List.range sizeof_map).map host.entry = map ++ (List.range 81).map host.after := by
  have hsize : sizeof_map = 3 + 81 := rfl
  rw [hsize, List.range_add, List.map_append, List.map_map]
  rfl

/-- Entries behind the table override those of the table. -/
theorem lookup_eq (host : Host) (name : String8) :
    lookup host name = (scan name ((List.range 81).map host.after)).or (scan name map) := by
  rw [lookup, entries_eq, scan_append]

theorem lookup_of_noMatch {host : Host} {name : String8} (h : host.NoMatch name) :
    lookup host name = scan name map := by
  have hnone : scan name ((List.range 81).map host.after) = none := by
    rw [scan_eq_none_iff]
    intro e he
    obtain ⟨i, -, rfl⟩ := List.mem_map.mp he
    exact h i
  rw [lookup_eq, hnone, Option.none_or]

theorem lookup_ne_none (host : Host) {name : String8} {m : Map} (h : scan name map = some m) :
    ∃ m', lookup host name = some m' := by
  rw [lookup_eq, h]
  cases scan name ((List.range 81).map host.after) with
  | none => exact ⟨m, rfl⟩
  | some m' => exact ⟨m', rfl⟩

/-- A name the scan does not find is not in the table either. -/
theorem scan_map_of_lookup_none {host : Host} {name : String8} (h : lookup host name = none) :
    scan name map = none := by
  rw [lookup_eq, Option.or_eq_none_iff] at h
  exact h.2

@[simp] theorem parse_nil (P : Parcel) : Request.parse P [] = ⟨[], 0, 0, []⟩ := by
  simp only [Request.parse, P.readString8_nil, P.readInt32_nil]

/-- What a sender packs in this order is what the service reads. -/
theorem parse_write (P : Parcel) (name : String8) (size offset : ℤ) (payload : List UInt8)
    (hname : (name.length : ℤ) < INT32_MAX) (hsize : Int32 size) (hoffset : Int32 offset) :
    Request.parse P
        (P.writeString8 name ++ (P.writeInt32 size ++ (P.writeInt32 offset ++ payload))) =
      ⟨name, size, offset, payload⟩ := by
  simp only [Request.parse, P.readString8_write name _ hname, P.readInt32_write size _ hsize,
    P.readInt32_write offset _ hoffset]

theorem readWriteSize_range (P : Parcel) (data : List UInt8) :
    Int32 (Request.parse P data).readWriteSize :=
  P.readInt32_range _

section Transactions

variable {P : Parcel} {host : Host} {io : Io} {nv : Nvram} {data : List UInt8} {m : Map}

theorem onTransact_of_none {code : ℕ}
    (h : lookup host (Request.parse P data).name = none) :
    onTransact P host io nv code data = ⟨nv, [], .NO_ERROR⟩ := by
  simp only [onTransact, h]

theorem onTransact_zero (h : lookup host (Request.parse P data).name = some m) :
    onTransact P host io nv 0 data =
      ⟨nv, (readFromNv host io nv m (Request.parse P data).offset
        (Request.parse P data).readWriteSize).2, .NO_ERROR⟩ := by
  simp only [onTransact, h]

theorem onTransact_one (h : lookup host (Request.parse P data).name = some m) :
    onTransact P host io nv 1 data =
      ⟨(writeToNv host io nv m (Request.parse P data).offset
        (Request.parse P data).readWriteSize (Request.parse P data).payload).2, [], .NO_ERROR⟩ := by
  simp only [onTransact, h]

/-- Only code 1 writes a record. -/
theorem onTransact_file {code : ℕ} (hcode : code ≠ 1) :
    (onTransact P host io nv code data).nv.file = nv.file := by
  cases h : lookup host (Request.parse P data).name with
  | none => rw [onTransact_of_none h]
  | some m =>
    simp only [onTransact, h]
    split
    · rfl
    · exact absurd rfl hcode
    · rfl
    · rfl

theorem writeToNv_of_granted {offset size : ℤ} {payload : List UInt8} {n : ℕ}
    (h : io.granted io.fd (size_t size) = some n) :
    (writeToNv host io nv m offset size payload).2 =
      nv.put m.Lid offset.toNat (block (nvdata host payload) 0 n) := by
  have hg : io.granted (lseek (NVM_GetFileDesc io m.Lid) offset).iFileDesc (size_t size) =
      some n := by
    rw [lseek_fd]
    exact h
  simp only [writeToNv]
  rw [write_of_granted hg, lseek_pos io m.Lid offset (granted_fd h), lseek_Lid,
    NVM_GetFileDesc_Lid]

theorem writeToNv_of_refused {offset size : ℤ} {payload : List UInt8}
    (h : io.granted io.fd (size_t size) = none) :
    (writeToNv host io nv m offset size payload).2 = nv := by
  have hg : io.granted (lseek (NVM_GetFileDesc io m.Lid) offset).iFileDesc (size_t size) =
      none := by
    rw [lseek_fd]
    exact h
  exact write_of_refused hg

def found (io : Io) (nv : Nvram) (m : Map) (offset size : ℤ) : List UInt8 :=
  match io.granted io.fd (size_t size) with
  | none => []
  | some n => slice (nv.file m.Lid) offset.toNat n

/-- The reply of `readFromNv`: what was found, then reserved bytes nothing
was read into. -/
theorem readFromNv_reply {offset size : ℤ} (h0 : 0 ≤ size) (hlt : size < 2 ^ 31) :
    (readFromNv host io nv m offset size).2 =
      found io nv m offset size ++
        ((List.range (pad_size size.toNat)).map host.reserved).drop
          (found io nv m offset size).length := by
  have hsize : size_t size = size.toNat := size_t_of_nonneg h0 hlt
  have hplace : writeInplace host.reserved size.toNat =
      some ((List.range (pad_size size.toNat)).map host.reserved) :=
    writeInplace_of_le host.reserved (by unfold INT32_MAX; omega)
  simp only [readFromNv, hsize, hplace, found, NvramDevice.read, lseek_fd, NVM_GetFileDesc_fd]
  cases hg : io.granted io.fd size.toNat with
  | none => rfl
  | some n => simp only [lseek_pos io m.Lid offset (granted_fd hg), lseek_Lid, NVM_GetFileDesc_Lid]

end Transactions

end Fixed.NvramService
