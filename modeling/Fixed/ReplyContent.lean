import Fixed.NvramClient

/-!
What a code-0 reply carries. The reply is reserved at the padded size of the
request before anything is read, the result of the read is dropped, and the
open is not checked, so reserved bytes stay in the reply wherever the read
delivers fewer. The reply is the record bytes asked for, whatever the record
and the reserved memory hold, exactly when the whole aligned range lies in
the record and the read delivers all of it.
-/
namespace Fixed.ReplyContent

open ByteFile BinderParcel NvramTable NvramDevice NvramService

def recordBytes (nv : Nvram) (q : Request) : List UInt8 :=
  match named q with
  | none => []
  | some t =>
    slice (nv.file t.Lid) q.offset.toNat ((q.offset + q.readWriteSize).toNat - q.offset.toNat)

def replyTo (P : Parcel) (host : Host) (reserved : ℕ → UInt8) (io : Io) (nv : Nvram)
    (data : List UInt8) : List UInt8 :=
  (onTransact P { host with reserved := reserved } io nv 0 data).reply

/-- The whole range asked for lies in the named record, is aligned, and is
what the service finds and reads. -/
structure Served (io : Io) (len : ℤ → ℕ) (q : Request) (found named : Map) : Prop where
  record : found.Lid = named.Lid
  read : io.granted io.fd (size_t q.readWriteSize) = some q.readWriteSize.toNat
  aligned : 4 ∣ q.readWriteSize.toNat
  from_start : 0 ≤ q.offset
  in_record : q.offset.toNat + q.readWriteSize.toNat ≤ len named.Lid

/-- The service finds no record, or is asked for no byte, or serves the whole range. -/
def Exact (host : Host) (io : Io) (len : ℤ → ℕ) (q : Request) : Prop :=
  ∀ m, NvramService.lookup host q.name = some m → q.readWriteSize ≠ 0 →
    ∃ t, named q = some t ∧ Served io len q m t

section Replies

variable {P : Parcel} {host : Host} {io : Io} {nv : Nvram} {data : List UInt8} {m t : Map}
  {reserved : ℕ → UInt8} {len : ℤ → ℕ} {q : Request}

theorem recordBytes_of_none (h : named q = none) : recordBytes nv q = [] := by
  simp only [recordBytes, h]

theorem recordBytes_of_some (h : named q = some t) :
    recordBytes nv q = slice (nv.file t.Lid) q.offset.toNat
      ((q.offset + q.readWriteSize).toNat - q.offset.toNat) := by
  simp only [recordBytes, h]

/-- No byte is asked for. -/
theorem recordBytes_of_zero (h : q.readWriteSize = 0) : recordBytes nv q = [] := by
  cases ht : named q with
  | none => exact recordBytes_of_none ht
  | some t =>
    rw [recordBytes_of_some ht, h]
    have hz : (q.offset + 0).toNat - q.offset.toNat = 0 := by omega
    rw [hz, slice_zero]

theorem replyTo_of_none (h : NvramService.lookup host (Request.parse P data).name = none) :
    replyTo P host reserved io nv data = [] := by
  have hlook : NvramService.lookup { host with reserved := reserved }
      (Request.parse P data).name = none := h
  rw [replyTo, onTransact_of_none hlook]

/-- What was found in the record, then reserved bytes up to the padded size. -/
theorem replyTo_of_some (h : NvramService.lookup host (Request.parse P data).name = some m)
    (h0 : 0 ≤ (Request.parse P data).readWriteSize) :
    replyTo P host reserved io nv data =
      found io nv m (Request.parse P data).offset (Request.parse P data).readWriteSize ++
        ((List.range (pad_size (Request.parse P data).readWriteSize.toNat)).map reserved).drop
          (found io nv m (Request.parse P data).offset
            (Request.parse P data).readWriteSize).length := by
  have hlook : NvramService.lookup { host with reserved := reserved }
      (Request.parse P data).name = some m := h
  have hlt := (readWriteSize_range P data).2
  rw [replyTo, onTransact_zero hlook, readFromNv_reply h0 hlt]

theorem length_found_le {offset size : ℤ} (h0 : 0 ≤ size) (hlt : size < 2 ^ 31) :
    (found io nv m offset size).length ≤ size.toNat := by
  unfold found
  split
  · exact Nat.zero_le _
  · rename_i n hn
    have hle := granted_le hn
    rw [size_t_of_nonneg h0 hlt] at hle
    rw [length_slice]
    omega

theorem length_replyTo (h : NvramService.lookup host (Request.parse P data).name = some m)
    (h0 : 0 ≤ (Request.parse P data).readWriteSize) :
    (replyTo P host reserved io nv data).length =
      pad_size (Request.parse P data).readWriteSize.toNat := by
  have hle := le_pad_size (Request.parse P data).readWriteSize.toNat
  have hfound : (found io nv m (Request.parse P data).offset
      (Request.parse P data).readWriteSize).length ≤
        (Request.parse P data).readWriteSize.toNat :=
    length_found_le h0 (readWriteSize_range P data).2
  rw [replyTo_of_some h h0]
  simp only [List.length_append, List.length_drop, List.length_map, List.length_range]
  omega

/-- A range that is served is all the reply carries. -/
theorem replyTo_of_served (h : NvramService.lookup host (Request.parse P data).name = some m)
    (h0 : 0 ≤ (Request.parse P data).readWriteSize) (ht : named (Request.parse P data) = some t)
    (hlen : ∀ Lid, (nv.file Lid).length = len Lid)
    (hs : Served io len (Request.parse P data) m t) :
    replyTo P host reserved io nv data = recordBytes nv (Request.parse P data) := by
  obtain ⟨hrecord, hread, haligned, hstart, hin⟩ := hs
  rw [replyTo_of_some h h0, recordBytes_of_some ht]
  generalize Request.parse P data = q at *
  have hall : (q.offset + q.readWriteSize).toNat - q.offset.toNat = q.readWriteSize.toNat := by
    omega
  have hfound : found io nv m q.offset q.readWriteSize =
      slice (nv.file t.Lid) q.offset.toNat q.readWriteSize.toNat := by
    simp only [found, hread, hrecord]
  rw [hfound, hall, (pad_size_eq_iff _).mpr haligned, List.drop_eq_nil_of_le, List.append_nil]
  rw [length_slice, hlen, List.length_map, List.length_range]
  omega

def marked (len : ℤ → ℕ) (Lid : ℤ) : Nvram :=
  ⟨fun L => List.replicate (len L) (if L = Lid then 1 else 0), []⟩

@[simp] theorem length_marked (len : ℤ → ℕ) (Lid L : ℤ) :
    ((marked len Lid).file L).length = len L := List.length_replicate

/-- A one among the found bytes of a marked device was read from the marked record. -/
theorem Lid_of_found {L : ℤ} {offset size : ℤ} {k : ℕ}
    (h : (found io (marked len L) m offset size)[k]? = some 1) :
    m.Lid = L ∧ ∃ n, io.granted io.fd (size_t size) = some n ∧ k < n := by
  unfold found at h
  split at h
  · exact absurd h (by simp)
  · rename_i n hn
    rw [getElem?_slice] at h
    split at h
    · rename_i hk
      refine ⟨?_, n, hn, hk⟩
      by_contra hne
      obtain ⟨hin, hb⟩ := List.getElem?_eq_some_iff.mp h
      simp [marked, if_neg hne] at hb
    · exact absurd h (by simp)

/-- Where the reply is right on every content of records and reserved memory,
the range asked for was served. -/
theorem served_of_exact (hlook : NvramService.lookup host (Request.parse P data).name = some m)
    (h0 : 0 < (Request.parse P data).readWriteSize)
    (h : ∀ L, replyTo P host (fun _ => 0) io (marked len L) data =
      recordBytes (marked len L) (Request.parse P data)) :
    ∃ t, named (Request.parse P data) = some t ∧ Served io len (Request.parse P data) m t := by
  have hle := le_pad_size (Request.parse P data).readWriteSize.toNat
  have hlt := (readWriteSize_range P data).2
  have hlen := fun L => (congrArg List.length (h L)).symm.trans (length_replyTo hlook h0.le)
  cases ht : named (Request.parse P data) with
  | none =>
    have hz := hlen 0
    rw [recordBytes_of_none ht, List.length_nil] at hz
    omega
  | some t =>
    have hsize := hlen t.Lid
    have hreply := h t.Lid
    rw [recordBytes_of_some ht, length_slice, length_marked] at hsize
    rw [replyTo_of_some hlook h0.le, recordBytes_of_some ht] at hreply
    generalize Request.parse P data = q at *
    have hstart : 0 ≤ q.offset := by omega
    have hall : (q.offset + q.readWriteSize).toNat - q.offset.toNat = q.readWriteSize.toNat := by
      omega
    have haligned : pad_size q.readWriteSize.toNat = q.readWriteSize.toNat := by omega
    have hin : q.offset.toNat + q.readWriteSize.toNat ≤ len t.Lid := by omega
    have hlast := congrArg (fun bs : List UInt8 => bs[q.readWriteSize.toNat - 1]?) hreply
    have hone : (slice ((marked len t.Lid).file t.Lid) q.offset.toNat
        ((q.offset + q.readWriteSize).toNat - q.offset.toNat))[q.readWriteSize.toNat - 1]? =
        some 1 := by
      rw [getElem?_slice, hall, if_pos (by omega)]
      simp only [marked, if_pos, List.getElem?_replicate]
      rw [if_pos (by omega)]
    simp only [hone, List.getElem?_append, List.getElem?_drop, List.getElem?_map] at hlast
    split at hlast
    · rename_i hfound
      obtain ⟨hrecord, n, hn, hk⟩ := Lid_of_found hlast
      have hbound := granted_le hn
      rw [size_t_of_nonneg h0.le hlt] at hbound
      have hn' : n = q.readWriteSize.toNat := by omega
      subst hn'
      exact ⟨t, rfl, hrecord, hn, (pad_size_eq_iff _).mp haligned, hstart, hin⟩
    · obtain ⟨i, -, hi⟩ := Option.map_eq_some_iff.mp hlast
      exact absurd hi (by decide)

end Replies

/-- A reply is the record bytes asked for, on every content of records of the
given lengths and of reserved memory, exactly when the service serves the
whole range or has nothing to serve. -/
theorem reply_exact_iff (P : Parcel) (host : Host) (io : Io) (len : ℤ → ℕ) (data : List UInt8)
    (h0 : 0 ≤ (Request.parse P data).readWriteSize) :
    (∀ (nv : Nvram) (reserved : ℕ → UInt8), (∀ Lid, (nv.file Lid).length = len Lid) →
      replyTo P host reserved io nv data = recordBytes nv (Request.parse P data)) ↔
    Exact host io len (Request.parse P data) := by
  constructor
  · intro h m hlook hne
    exact served_of_exact hlook (by omega) fun L => h (marked len L) _ (length_marked len L)
  · intro h nv reserved hlen
    cases hlook : NvramService.lookup host (Request.parse P data).name with
    | none =>
      rw [replyTo_of_none hlook, recordBytes_of_none (scan_map_of_lookup_none hlook)]
    | some m =>
      by_cases hz : (Request.parse P data).readWriteSize = 0
      · rw [recordBytes_of_zero hz]
        apply List.length_eq_zero_iff.mp
        rw [length_replyTo hlook h0, hz]
        rfl
      · obtain ⟨t, ht, hs⟩ := h m hlook hz
        exact replyTo_of_served hlook h0 ht hlen hs

section Sample

open NvramClient

def readH1 (size : ℤ) : List UInt8 :=
  binderParcel.writeString8 (ascii ['H', '1']) ++ (binderParcel.writeInt32 size ++
    binderParcel.writeInt32 0)

theorem reply_exact_iff_H1 :
    (∀ (nv : Nvram) (reserved : ℕ → UInt8), (∀ Lid, (nv.file Lid).length = 80) →
      replyTo binderParcel quietHost reserved idealIo nv (readH1 80) =
        recordBytes nv (Request.parse binderParcel (readH1 80))) ↔
    Exact quietHost idealIo (fun _ => 80) (Request.parse binderParcel (readH1 80)) :=
  reply_exact_iff binderParcel quietHost idealIo (fun _ => 80) (readH1 80) (by decide)

/-- Two bytes are asked for; the reply adds two reserved bytes behind them. -/
theorem reply_reserved_H1 :
    recordBytes blankNvram (Request.parse binderParcel (readH1 2)) = [0, 0] ∧
    replyTo binderParcel quietHost (fun _ => 9) idealIo blankNvram (readH1 2) = [0, 0, 9, 9] := by
  constructor <;> decide +kernel

end Sample

end Fixed.ReplyContent
