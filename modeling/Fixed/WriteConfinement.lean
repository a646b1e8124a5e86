import Fixed.NvramClient

/-!
What a code-1 transaction may change. The service writes as many bytes as the
request asks for, at the offset it names, from the read position of the
parcel; nothing compares these with the record size, with the file or with
the bytes that came. A transaction is confined on every record content
exactly when the transfer it causes happens to respect all these bounds.
-/
namespace Fixed.WriteConfinement

open ByteFile BinderParcel NvramTable NvramDevice NvramService

/-- A write request changes only bytes of the named record, within the range
it names and to bytes it carries, and lengthens no record past its table size. -/
structure Confined (q : Request) (nv nv' : Nvram) : Prop where
  other : ∀ Lid, (named q).map Map.Lid ≠ some Lid → nv'.file Lid = nv.file Lid
  range : ∀ t, named q = some t → ∀ k : ℕ, (nv'.file t.Lid)[k]? ≠ (nv.file t.Lid)[k]? →
    q.offset ≤ k ∧ k < q.offset + q.readWriteSize
  payload : ∀ t, named q = some t → ∀ k : ℕ, (nv'.file t.Lid)[k]? ≠ (nv.file t.Lid)[k]? →
    (nv'.file t.Lid)[k]? = q.payload[k - q.offset.toNat]?
  length : ∀ t, named q = some t →
    (nv'.file t.Lid).length ≤ max (nv.file t.Lid).length t.size.toNat

/-- The bounds a write of `n` bytes to the record found has to respect, for a
named record of length `len`. -/
structure Bounded (q : Request) (found named : Map) (len n : ℕ) : Prop where
  record : found.Lid = named.Lid
  no_gap : q.offset.toNat ≤ len
  before_end : ((q.offset.toNat + n : ℕ) : ℤ) ≤ q.offset + q.readWriteSize
  carried : n ≤ q.payload.length
  in_record : q.offset.toNat + n ≤ max len named.size.toNat

def TransferBounded (host : Host) (io : Io) (len : ℤ → ℕ) (q : Request) : Prop :=
  ∀ m n, NvramService.lookup host q.name = some m →
    io.granted io.fd (size_t q.readWriteSize) = some n → 0 < n →
    ∃ t, named q = some t ∧ Bounded q m t (len t.Lid) n

theorem Confined.refl (q : Request) (nv : Nvram) : Confined q nv nv where
  other _ _ := rfl
  range _ _ _ h := absurd rfl h
  payload _ _ _ h := absurd rfl h
  length _ _ := Nat.le_max_left _ _

section Writes

variable {P : Parcel} {host : Host} {io : Io} {data : List UInt8} {nv : Nvram} {m t : Map} {n : ℕ}

/-- A transaction either transfers nothing or writes `n` bytes at the offset. -/
theorem onTransact_cases (P : Parcel) (host : Host) (io : Io) (data : List UInt8) :
    (∀ nv, (onTransact P host io nv 1 data).nv = nv) ∧
        (∀ m n, NvramService.lookup host (Request.parse P data).name = some m →
          io.granted io.fd (size_t (Request.parse P data).readWriteSize) = some n → n = 0) ∨
      ∃ m n, NvramService.lookup host (Request.parse P data).name = some m ∧
        io.granted io.fd (size_t (Request.parse P data).readWriteSize) = some n ∧ 0 < n ∧
        ∀ nv, (onTransact P host io nv 1 data).nv =
          nv.put m.Lid (Request.parse P data).offset.toNat
            (block (nvdata host (Request.parse P data).payload) 0 n) := by
  cases hlook : NvramService.lookup host (Request.parse P data).name with
  | none =>
    refine Or.inl ⟨fun nv => by rw [onTransact_of_none hlook], ?_⟩
    intro m n h
    exact absurd h (by simp)
  | some m =>
    cases hgrant : io.granted io.fd (size_t (Request.parse P data).readWriteSize) with
    | none =>
      refine Or.inl ⟨fun nv => by rw [onTransact_one hlook, writeToNv_of_refused hgrant], ?_⟩
      intro m' n _ h
      exact absurd h (by simp)
    | some n =>
      have hwrite : ∀ nv, (onTransact P host io nv 1 data).nv = _ := fun nv => by
        rw [onTransact_one hlook, writeToNv_of_granted hgrant]
      by_cases hn : 0 < n
      · exact Or.inr ⟨m, n, rfl, rfl, hn, hwrite⟩
      · have hz : n = 0 := by omega
        subst hz
        refine Or.inl ⟨fun nv => by rw [hwrite, block_zero, put_nil], ?_⟩
        intro m' n _ h
        exact (Option.some.inj h).symm

/-- The bytes of a record behind a write of `n` bytes. -/
theorem getElem?_put (nv : Nvram) (Lid : ℤ) (pos : ℕ) (src : ℕ → UInt8) (hn : 0 < n) (k : ℕ) :
    ((nv.put Lid pos (block src 0 n)).file Lid)[k]? =
      if k < pos then (if k < (nv.file Lid).length then (nv.file Lid)[k]? else some 0)
      else if k < pos + n then some (src (k - pos)) else (nv.file Lid)[k]? := by
  rw [put_file_self, getElem?_overwrite 0 _ _ (block_ne_nil _ _ hn), length_block, getElem?_block,
    Nat.zero_add]
  split
  · rfl
  · split
    · rw [if_pos (by omega)]
    · rfl

/-- A bounded write is confined. -/
theorem confined_put {q : Request} (ht : named q = some t)
    (hb : Bounded q m t (nv.file t.Lid).length n) (hn : 0 < n) :
    Confined q nv (nv.put m.Lid q.offset.toNat (block (nvdata host q.payload) 0 n)) := by
  obtain ⟨hrecord, hgap, hend, hcarried, hsize⟩ := hb
  have hinside : ∀ k, ((nv.put t.Lid q.offset.toNat
      (block (nvdata host q.payload) 0 n)).file t.Lid)[k]? ≠ (nv.file t.Lid)[k]? →
      q.offset.toNat ≤ k ∧ k < q.offset.toNat + n := by
    intro k hk
    rw [getElem?_put nv _ _ _ hn] at hk
    by_contra hout
    apply hk
    split
    · rw [if_pos (by omega)]
    · rw [if_neg (by omega)]
  rw [hrecord]
  constructor
  · intro Lid hne
    rw [ht, Option.map_some, Ne, Option.some.injEq] at hne
    exact put_file_of_ne nv (Ne.symm hne) _ _
  · intro t' ht' k hk
    obtain rfl : t' = t := Option.some.inj (ht'.symm.trans ht)
    obtain ⟨hlo, hhi⟩ := hinside k hk
    omega
  · intro t' ht' k hk
    obtain rfl : t' = t := Option.some.inj (ht'.symm.trans ht)
    obtain ⟨hlo, hhi⟩ := hinside k hk
    have hin : k - q.offset.toNat < q.payload.length := by omega
    rw [getElem?_put nv _ _ _ hn, if_neg (by omega), if_pos hhi, nvdata,
      List.getElem?_eq_getElem hin, Option.getD_some]
  · intro t' ht'
    obtain rfl : t' = t := Option.some.inj (ht'.symm.trans ht)
    rw [put_file_self, length_overwrite 0 _ _ (block_ne_nil _ _ hn), length_block]
    omega

def filled (len : ℤ → ℕ) (b : UInt8) : Nvram := ⟨fun Lid => List.replicate (len Lid) b, []⟩

@[simp] theorem length_filled (len : ℤ → ℕ) (b : UInt8) (Lid : ℤ) :
    ((filled len b).file Lid).length = len Lid := List.length_replicate

/-- On a record filled with another byte, a written byte is a changed one. -/
theorem changed_of_written (len : ℤ → ℕ) (Lid : ℤ) (pos : ℕ) (src : ℕ → UInt8) {i : ℕ}
    (hi : i < n) :
    (((filled len (src i + 1)).put Lid pos (block src 0 n)).file Lid)[pos + i]? = some (src i) ∧
      (((filled len (src i + 1)).put Lid pos (block src 0 n)).file Lid)[pos + i]? ≠
        ((filled len (src i + 1)).file Lid)[pos + i]? := by
  have hnew : (((filled len (src i + 1)).put Lid pos (block src 0 n)).file Lid)[pos + i]? =
      some (src i) := by
    rw [getElem?_put _ _ _ _ (by omega), if_neg (by omega), if_pos (by omega),
      Nat.add_sub_cancel_left]
  refine ⟨hnew, ?_⟩
  rw [hnew]
  intro he
  obtain ⟨hin, hb⟩ := List.getElem?_eq_some_iff.mp he.symm
  simp [filled] at hb

/-- A write that is confined on every content of the records is bounded. -/
theorem bounded_of_confined {q : Request} {len : ℤ → ℕ} (hn : 0 < n)
    (h : ∀ b, Confined q (filled len b)
      ((filled len b).put m.Lid q.offset.toNat (block (nvdata host q.payload) 0 n))) :
    ∃ t, named q = some t ∧ Bounded q m t (len t.Lid) n := by
  have hwritten := fun i (hi : i < n) =>
    changed_of_written len m.Lid q.offset.toNat (nvdata host q.payload) hi
  have hrecord : (named q).map Map.Lid = some m.Lid := by
    by_contra hne
    apply (hwritten 0 hn).2
    rw [(h _).other m.Lid hne]
  obtain ⟨t, ht, hL⟩ := Option.map_eq_some_iff.mp hrecord
  have hrange : ∀ i, i < n → q.offset ≤ ((q.offset.toNat + i : ℕ) : ℤ) ∧
      ((q.offset.toNat + i : ℕ) : ℤ) < q.offset + q.readWriteSize := by
    intro i hi
    apply (h _).range t ht
    rw [hL]
    exact (hwritten i hi).2
  refine ⟨t, ht, hL.symm, ?_, ?_, ?_, ?_⟩
  · by_contra hgap
    have hchanged : (((filled len 0).put m.Lid q.offset.toNat
        (block (nvdata host q.payload) 0 n)).file m.Lid)[len m.Lid]? ≠
        ((filled len 0).file m.Lid)[len m.Lid]? := by
      rw [hL] at hgap
      rw [getElem?_put _ _ _ _ hn, if_pos (by omega), length_filled, if_neg (by omega),
        List.getElem?_eq_none (by rw [length_filled])]
      simp
    have hlow := (h 0).range t ht (len t.Lid) (by rw [hL]; exact hchanged)
    omega
  · have hlast := hrange (n - 1) (by omega)
    omega
  · by_contra hshort
    have hover := hwritten q.payload.length (by omega)
    have hcame := (h _).payload t ht (q.offset.toNat + q.payload.length) (by rw [hL]; exact hover.2)
    rw [hL, hover.1, Nat.add_sub_cancel_left, List.getElem?_eq_none le_rfl] at hcame
    exact absurd hcame (by simp)
  · have hlen := (h 0).length t ht
    rw [hL, put_file_self, length_overwrite 0 _ _ (block_ne_nil _ _ hn), length_block,
      length_filled] at hlen
    rw [hL]
    omega

end Writes

/-- A write request is confined on every content of records of the given
lengths exactly when the transfer it causes respects the bounds. -/
theorem write_confined_iff (P : Parcel) (host : Host) (io : Io) (len : ℤ → ℕ) (data : List UInt8) :
    (∀ nv : Nvram, (∀ Lid, (nv.file Lid).length = len Lid) →
      Confined (Request.parse P data) nv (onTransact P host io nv 1 data).nv) ↔
    TransferBounded host io len (Request.parse P data) := by
  rcases onTransact_cases P host io data with ⟨hsame, hzero⟩ | ⟨m, n, hlook, hgrant, hn, hwrite⟩
  · constructor
    · intro _ m n hlook hgrant hn
      have hz := hzero m n hlook hgrant
      omega
    · intro _ nv _
      rw [hsame]
      exact Confined.refl _ nv
  · constructor
    · intro h m' n' hlook' hgrant' _
      obtain rfl : m = m' := Option.some.inj (hlook.symm.trans hlook')
      obtain rfl : n = n' := Option.some.inj (hgrant.symm.trans hgrant')
      have hall : ∀ b, Confined (Request.parse P data) (filled len b)
          ((filled len b).put m.Lid (Request.parse P data).offset.toNat
            (block (nvdata host (Request.parse P data).payload) 0 n)) := by
        intro b
        rw [← hwrite]
        exact h (filled len b) (length_filled len b)
      exact bounded_of_confined hn hall
    · intro h nv hlen
      obtain ⟨t, ht, hb⟩ := h m n hlook hgrant hn
      rw [hwrite]
      rw [← hlen] at hb
      exact confined_put ht hb hn

section Sample

open NvramClient

def appendH1 : List UInt8 :=
  binderParcel.writeString8 (ascii ['H', '1']) ++ (binderParcel.writeInt32 4 ++
    (binderParcel.writeInt32 80 ++ [1, 2, 3, 4]))

/-- The request is served and makes the record longer than its table size. -/
theorem write_past_end_H1 :
    named (Request.parse binderParcel appendH1) = some ⟨ascii ['H', '1'], 71, 80⟩ ∧
    ((onTransact binderParcel quietHost idealIo blankNvram 1 appendH1).nv.file 71).length = 84 ∧
    ¬ Confined (Request.parse binderParcel appendH1) blankNvram
      (onTransact binderParcel quietHost idealIo blankNvram 1 appendH1).nv := by
  have hnamed : named (Request.parse binderParcel appendH1) = some ⟨ascii ['H', '1'], 71, 80⟩ := by
    decide
  have hlen : ((onTransact binderParcel quietHost idealIo blankNvram 1 appendH1).nv.file
      71).length = 84 := by decide +kernel
  refine ⟨hnamed, hlen, ?_⟩
  intro h
  have hle := h.length _ hnamed
  rw [hlen] at hle
  exact absurd hle (by decide)

end Sample

end Fixed.WriteConfinement
