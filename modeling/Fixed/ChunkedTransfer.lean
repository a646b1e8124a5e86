import Fixed.NvramClient

/-!
The two access paths to a record, in chunks over Binder and directly on the
record file. Each chunk the client sends is a write, or a read, at its own
offset, so the loop amounts to one transfer of the chunks laid end to end.
The number of chunks follows from the smaller of count and record size, but
the length of the last one from the count alone, and a reply carries the
padding of its parcel: the paths agree exactly on counts within the record
that are multiples of four, and where the service finds the same record.
-/
namespace Fixed.ChunkedTransfer

open ByteFile BinderParcel NvramTable NvramDevice NvramService NvramClient

/-- The service and the system during the transactions of one call: opens
succeed and transfers move all bytes, reserved reply bytes are arbitrary. -/
structure Channel where
  host : Host
  reserved : ℕ → ℕ → UInt8
  io : ℕ → Io
  ideal : ∀ i, (io i).Ideal

def Channel.hostAt (ch : Channel) (i : ℕ) : Host := { ch.host with reserved := ch.reserved i }

def Channel.binder (P : Parcel) (ch : Channel) (i : ℕ) : Binder := served P (ch.hostAt i) (ch.io i)

def Declared (nv : Nvram) : Prop := ∀ m ∈ NvramClient.map, (nv.file m.Lid).length = m.size.toNat

/-- What makes an entry of the table fit for a transfer. -/
theorem map_entry {m : Map} (hm : m ∈ NvramClient.map) :
    NvramClient.lookup m.name = some m ∧ (m.name.length : ℤ) < INT32_MAX ∧
      m.size = m.size.toNat ∧ 0 < m.size.toNat ∧ m.size.toNat < 2 ^ 22 ∧
      m.size.toNat % TRANSFER_LIMIT ≠ 0 := by
  have hall : ∀ m ∈ NvramClient.map,
      NvramClient.lookup m.name = some m ∧ (m.name.length : ℤ) < INT32_MAX ∧
        m.size = m.size.toNat ∧ 0 < m.size.toNat ∧ m.size.toNat < 2 ^ 22 ∧
        m.size.toNat % TRANSFER_LIMIT ≠ 0 := by decide
  exact hall m hm

/-- The chunks reach the smaller of count and size, and no chunk starts past it. -/
theorem loopCount_spec {m : Map} (hm : m ∈ NvramClient.map) {count : ℕ} (hcount : 0 < count) :
    min count m.size.toNat ≤ TRANSFER_LIMIT * loopCount m count ∧
      TRANSFER_LIMIT * (loopCount m count - 1) < min count m.size.toNat ∧
      0 < loopCount m count := by
  obtain ⟨-, -, hsize, hpos, hlt, -⟩ := map_entry hm
  have hS : size_t m.size = m.size.toNat := size_t_of_nonneg (by omega) (by omega)
  unfold loopCount TRANSFER_LIMIT
  rw [hS]
  dsimp only
  split <;> split <;> omega

/-- Past the end of the record the chunks carry more than the record holds. -/
theorem size_lt_of_count {m : Map} (hm : m ∈ NvramClient.map) {count : ℕ}
    (h : m.size.toNat < count) : m.size.toNat < min (TRANSFER_LIMIT * loopCount m count) count := by
  obtain ⟨-, -, -, hpos, -, hmod⟩ := map_entry hm
  obtain ⟨hreach, -, -⟩ := loopCount_spec hm (show 0 < count by omega)
  have hne : m.size.toNat ≠ TRANSFER_LIMIT * loopCount m count := by
    intro he
    rw [he, Nat.mul_mod_right] at hmod
    exact hmod rfl
  omega

theorem chunk_range {m : Map} (hm : m ∈ NvramClient.map) {count i : ℕ} (hcount : 0 < count)
    (hi : i < loopCount m count) :
    Int32 (chunkSize count i) ∧ Int32 ((TRANSFER_LIMIT * i : ℕ) : ℤ) := by
  obtain ⟨-, -, -, -, hlt, -⟩ := map_entry hm
  obtain ⟨-, hstart, -⟩ := loopCount_spec hm hcount
  have hle : TRANSFER_LIMIT * i ≤ TRANSFER_LIMIT * (loopCount m count - 1) :=
    Nat.mul_le_mul_left _ (by omega)
  have hchunk : chunkSize count i ≤ TRANSFER_LIMIT := by
    rw [chunkSize_eq_min]
    exact Nat.min_le_left _ _
  unfold TRANSFER_LIMIT at *
  constructor <;> constructor <;> omega

section Transactions

variable {P : Parcel} {host : Host} {io : Io} {m m' : Map} {count i : ℕ}

theorem parse_chunkHeader (hm : m ∈ NvramClient.map) (hcount : 0 < count)
    (hi : i < loopCount m count) (payload : List UInt8) :
    Request.parse P (chunkHeader P m.name i count payload) =
      ⟨m.name, chunkSize count i, (TRANSFER_LIMIT * i : ℕ), payload⟩ := by
  obtain ⟨-, hname, -⟩ := map_entry hm
  obtain ⟨hsize, hoffset⟩ := chunk_range hm hcount hi
  exact parse_write P m.name _ _ payload hname hsize hoffset

theorem size_t_chunkSize : size_t (chunkSize count i) = chunkSize count i := by
  apply size_t_natCast
  rw [chunkSize_eq_min]
  unfold TRANSFER_LIMIT
  omega

theorem granted_chunk (hio : io.Ideal) :
    io.granted io.fd (size_t (chunkSize count i)) = some (chunkSize count i) := by
  rw [size_t_chunkSize]
  apply granted_ideal hio
  rw [chunkSize_eq_min]
  unfold TRANSFER_LIMIT SSIZE_MAX
  omega

/-- A chunk that is sent lands at its own offset of the record the service finds. -/
theorem writeInner_eq (hm : m ∈ NvramClient.map) (hcount : 0 < count) (hi : i < loopCount m count)
    (hlook : NvramService.lookup host m.name = some m') (hio : io.Ideal) (nv : Nvram)
    (src : Buffer) :
    writeInner P (served P host io) nv m.name i count src =
      nv.put m'.Lid (TRANSFER_LIMIT * i) (block src (TRANSFER_LIMIT * i) (chunkSize count i)) := by
  have hparse := parse_chunkHeader (P := P) hm hcount hi
    (P.write (block src (TRANSFER_LIMIT * i) (chunkSize count i)))
  have hfind : NvramService.lookup host (Request.parse P (chunkHeader P m.name i count
      (P.write (block src (TRANSFER_LIMIT * i) (chunkSize count i))))).name = some m' := by
    rw [hparse]
    exact hlook
  have hpayload : block (nvdata host (P.write (block src (TRANSFER_LIMIT * i)
      (chunkSize count i)))) 0 (chunkSize count i) =
      block src (TRANSFER_LIMIT * i) (chunkSize count i) := by
    rw [block_nvdata host (by rw [P.length_write, length_block]; exact le_pad_size _), Parcel.write]
    exact List.take_left' (length_block _ _ _)
  simp only [writeInner, served, onTransact_one hfind, hparse]
  rw [writeToNv_of_granted (granted_chunk hio), hpayload, Int.toNat_natCast]

def reply (host : Host) (io : Io) (nv : Nvram) (m' : Map) (count i : ℕ) : List UInt8 :=
  (readFromNv host io nv m' (TRANSFER_LIMIT * i : ℕ) (chunkSize count i)).2

theorem readInner_eq (hm : m ∈ NvramClient.map) (hcount : 0 < count) (hi : i < loopCount m count)
    (hlook : NvramService.lookup host m.name = some m') (nv : Nvram) (dst : Buffer) :
    readInner P (served P host io) nv m.name i count dst =
      (nv, splice dst (TRANSFER_LIMIT * i) (reply host io nv m' count i)) := by
  have hparse := parse_chunkHeader (P := P) hm hcount hi []
  have hfind : NvramService.lookup host
      (Request.parse P (chunkHeader P m.name i count [])).name = some m' := by
    rw [hparse]
    exact hlook
  simp only [readInner, served, onTransact_zero hfind, hparse, reply]

/-- A reply holds the record bytes of its chunk and reserved bytes up to the
padded length. -/
theorem reply_eq (hio : io.Ideal) (nv : Nvram) :
    reply host io nv m' count i =
      slice (nv.file m'.Lid) (TRANSFER_LIMIT * i) (chunkSize count i) ++
        ((List.range (pad_size (chunkSize count i))).map host.reserved).drop
          (slice (nv.file m'.Lid) (TRANSFER_LIMIT * i) (chunkSize count i)).length := by
  have hlt : chunkSize count i < 2 ^ 31 := by
    rw [chunkSize_eq_min]
    unfold TRANSFER_LIMIT
    omega
  have hfound : found io nv m' (TRANSFER_LIMIT * i : ℕ) (chunkSize count i) =
      slice (nv.file m'.Lid) (TRANSFER_LIMIT * i) (chunkSize count i) := by
    simp only [found, granted_chunk hio, Int.toNat_natCast]
  rw [reply, readFromNv_reply (by omega) (by omega), hfound, Int.toNat_natCast]

theorem length_reply (hio : io.Ideal) (nv : Nvram) :
    (reply host io nv m' count i).length = pad_size (chunkSize count i) := by
  have hle := le_pad_size (chunkSize count i)
  rw [reply_eq hio]
  simp only [List.length_append, length_slice, List.length_drop, List.length_map, List.length_range]
  omega

/-- An aligned chunk that lies inside the record is read back without padding. -/
theorem reply_of_dvd (hio : io.Ideal) {nv : Nvram} (h4 : 4 ∣ chunkSize count i)
    (hin : TRANSFER_LIMIT * i + chunkSize count i ≤ (nv.file m'.Lid).length) :
    reply host io nv m' count i =
      slice (nv.file m'.Lid) (TRANSFER_LIMIT * i) (chunkSize count i) := by
  rw [reply_eq hio, (pad_size_eq_iff _).mpr h4, List.drop_eq_nil_of_le, List.append_nil]
  simp only [length_slice, List.length_map, List.length_range]
  omega

end Transactions

def replies (ch : Channel) (nv : Nvram) (m m' : Map) (count : ℕ) : List UInt8 :=
  (List.range (loopCount m count)).flatMap fun i => reply (ch.hostAt i) (ch.io i) nv m' count i

section Loops

variable {P : Parcel} {ch : Channel} {m m' : Map} {count : ℕ} (hm : m ∈ NvramClient.map)
  (hcount : 0 < count)

include hm hcount

/-- Every chunk but the last is full. -/
theorem chunkSize_of_lt {i : ℕ} (hi : i + 1 < loopCount m count) :
    chunkSize count i = TRANSFER_LIMIT := by
  obtain ⟨-, hstart, -⟩ := loopCount_spec hm hcount
  have hle : TRANSFER_LIMIT * (i + 1) ≤ TRANSFER_LIMIT * (loopCount m count - 1) :=
    Nat.mul_le_mul_left _ (by omega)
  rw [chunkSize_eq_min]
  rw [Nat.mul_succ] at hle
  omega

variable (hlook : NvramService.lookup ch.host m.name = some m')

include hlook

/-- The write loop is one write of the chunks laid end to end. -/
theorem foldl_writeInner (nv : Nvram) (src : Buffer) :
    (List.range (loopCount m count)).foldl
        (fun nv i => writeInner P (ch.binder P i) nv m.name i count src) nv =
      nv.put m'.Lid 0 (block src 0 (min (TRANSFER_LIMIT * loopCount m count) count)) := by
  have hstep : ∀ nv', ∀ i ∈ List.range (loopCount m count),
      writeInner P (ch.binder P i) nv' m.name i count src = nv'.put m'.Lid (TRANSFER_LIMIT * i)
        (block src (TRANSFER_LIMIT * i) (chunkSize count i)) := by
    intro nv' i hi
    have hlook' : NvramService.lookup (ch.hostAt i) m.name = some m' := hlook
    exact writeInner_eq hm hcount (List.mem_range.mp hi) hlook' (ch.ideal i) nv' src
  have hfull : ∀ i, i + 1 < loopCount m count →
      (block src (TRANSFER_LIMIT * i) (chunkSize count i)).length = TRANSFER_LIMIT := by
    intro i hi
    rw [length_block, chunkSize_of_lt hm hcount hi]
  rw [List.foldl_ext _ _ nv hstep]
  rw [foldl_chunks (fun nv p bs => Nvram.put nv m'.Lid p bs) (fun nv p => put_nil nv m'.Lid p)
    (fun nv p u v => put_put nv m'.Lid p u v) hfull nv]
  simp only [chunkSize_eq_min, flatMap_block]

/-- The read loop leaves the device alone and is one copy of all replies. -/
theorem foldl_readInner (nv : Nvram) (dst : Buffer) :
    (List.range (loopCount m count)).foldl
        (fun s i => readInner P (ch.binder P i) s.1 m.name i count s.2) (nv, dst) =
      (nv, splice dst 0 (replies ch nv m m' count)) := by
  have hstep : ∀ is : List ℕ, (∀ i ∈ is, i < loopCount m count) → ∀ b,
      is.foldl (fun s i => readInner P (ch.binder P i) s.1 m.name i count s.2) (nv, b) =
        (nv, is.foldl (fun b i => splice b (TRANSFER_LIMIT * i)
          (reply (ch.hostAt i) (ch.io i) nv m' count i)) b) := by
    intro is
    induction is with
    | nil => intro _ b; rfl
    | cons i is ih =>
      intro his b
      have hlook' : NvramService.lookup (ch.hostAt i) m.name = some m' := hlook
      have hi : readInner P (served P (ch.hostAt i) (ch.io i)) nv m.name i count b =
          (nv, splice b (TRANSFER_LIMIT * i) (reply (ch.hostAt i) (ch.io i) nv m' count i)) :=
        readInner_eq hm hcount (his i List.mem_cons_self) hlook' nv b
      rw [List.foldl_cons, List.foldl_cons, Channel.binder, hi]
      exact ih (fun j hj => his j (List.mem_cons_of_mem i hj)) _
  have hfull : ∀ i, i + 1 < loopCount m count →
      (reply (ch.hostAt i) (ch.io i) nv m' count i).length = TRANSFER_LIMIT := by
    intro i hi
    rw [length_reply (ch.ideal i), chunkSize_of_lt hm hcount hi]
    rfl
  rw [hstep _ (fun i hi => List.mem_range.mp hi),
    foldl_chunks splice splice_nil splice_splice hfull, replies]

theorem chunked_writeNv_file (nv : Nvram) (src : Buffer) :
    (Chunked.writeNv P (some (ch.binder P)) nv m.name (some src) count).2.file =
      (nv.put m'.Lid 0 (block src 0 (min (TRANSFER_LIMIT * loopCount m count) count))).file := by
  simp only [Chunked.writeNv, (map_entry hm).1]
  rw [if_neg (by omega), foldl_writeInner hm hcount hlook]
  exact onTransact_file (by decide)

theorem chunked_readNv_eq (nv : Nvram) (dst : Buffer) :
    Chunked.readNv P (some (ch.binder P)) nv m.name (some dst) count =
      (0, nv, some (splice dst 0 (replies ch nv m m' count))) := by
  simp only [Chunked.readNv, (map_entry hm).1]
  rw [if_neg (by omega), foldl_readInner hm hcount hlook]

end Loops

section Replies

variable {ch : Channel} {m m' : Map} {count : ℕ} {nv : Nvram} (hm : m ∈ NvramClient.map)
  (hcount : 0 < count) (hle : count ≤ m.size.toNat)
  (hlen : count ≤ (nv.file m'.Lid).length)

include hm hcount hle hlen

/-- Aligned replies from inside the record are the head of the record. -/
theorem replies_of_dvd (h4 : 4 ∣ count) :
    replies ch nv m m' count = slice (nv.file m'.Lid) 0 count := by
  obtain ⟨hreach, hstart, -⟩ := loopCount_spec hm hcount
  have hpiece : ∀ i ∈ List.range (loopCount m count), reply (ch.hostAt i) (ch.io i) nv m' count i =
      slice (nv.file m'.Lid) (TRANSFER_LIMIT * i)
        (min TRANSFER_LIMIT (count - TRANSFER_LIMIT * i)) := by
    intro i hi
    have hi := List.mem_range.mp hi
    have hbelow : TRANSFER_LIMIT * i ≤ TRANSFER_LIMIT * (loopCount m count - 1) :=
      Nat.mul_le_mul_left _ (by omega)
    have hchunk := chunkSize_eq_min count i
    have hdvd : 4 ∣ chunkSize count i := by
      rw [hchunk]
      unfold TRANSFER_LIMIT at *
      omega
    rw [reply_of_dvd (ch.ideal i) hdvd (by omega), hchunk]
  rw [replies, List.flatMap_congr hpiece, flatMap_slice]
  congr 1
  omega

/-- Where the count is not a multiple of four, the byte behind the requested
ones is one that the last reply reserved and nothing was read into. -/
theorem replies_padding (h4 : ¬ 4 ∣ count) :
    (replies ch nv m m' count)[count]? =
      some (ch.reserved (loopCount m count - 1)
        (count - TRANSFER_LIMIT * (loopCount m count - 1))) := by
  obtain ⟨hreach, hstart, hpos⟩ := loopCount_spec hm hcount
  obtain ⟨n, hn⟩ : ∃ n, loopCount m count = n + 1 := ⟨loopCount m count - 1, by omega⟩
  have hfront : ((List.range n).flatMap fun i =>
      reply (ch.hostAt i) (ch.io i) nv m' count i).length = TRANSFER_LIMIT * n := by
    apply length_flatMap_full
    intro i hi
    rw [length_reply (ch.ideal i), chunkSize_of_lt hm hcount (by omega)]
    rfl
  rw [hn, Nat.mul_succ] at hreach
  rw [hn, Nat.add_sub_cancel] at hstart ⊢
  have hlast : chunkSize count n = count - TRANSFER_LIMIT * n := by
    rw [chunkSize_eq_min]
    omega
  have hpad := le_pad_size (count - TRANSFER_LIMIT * n)
  have hne : pad_size (count - TRANSFER_LIMIT * n) ≠ count - TRANSFER_LIMIT * n := by
    rw [Ne, pad_size_eq_iff]
    unfold TRANSFER_LIMIT at *
    omega
  have hslice : (slice (nv.file m'.Lid) (TRANSFER_LIMIT * n)
      (count - TRANSFER_LIMIT * n)).length = count - TRANSFER_LIMIT * n := by
    rw [length_slice]
    omega
  rw [replies, hn, List.range_succ, List.flatMap_append,
    List.getElem?_append_right (by rw [hfront]; omega), hfront]
  simp only [List.flatMap_cons, List.flatMap_nil, List.append_nil]
  rw [reply_eq (ch.ideal n), hlast, List.getElem?_append_right (by rw [hslice]), hslice,
    List.getElem?_drop, List.getElem?_map, Nat.sub_self, Nat.add_zero,
    List.getElem?_range (by omega)]
  rfl

end Replies

/-- The two paths agree on a call: each chunked call has the effect of the
direct one, which is to replace, or to copy, exactly `min(count, S)` bytes. -/
structure Agrees (P : Parcel) (ch : Channel) (lib : Libnvram) (io : Io) (m : Map) (count : ℕ)
    (nv : Nvram) (buf : Buffer) : Prop where
  write_direct : (Chunked.writeNv P (some (ch.binder P)) nv m.name (some buf) count).2.file =
    (writeNv lib io (some (served P ch.host io)) nv m.name (some buf) count).2.file
  write_bytes : ∀ k, ((Chunked.writeNv P (some (ch.binder P)) nv m.name (some buf)
    count).2.file m.Lid)[k]? = if k < min count m.size.toNat then some (buf k)
      else (nv.file m.Lid)[k]?
  read_direct : (Chunked.readNv P (some (ch.binder P)) nv m.name (some buf) count).2 =
    (nv, (readNv lib io nv m.name (some buf) count).2)
  read_bytes : (Chunked.readNv P (some (ch.binder P)) nv m.name (some buf) count).2.2 =
    some fun k => if k < min count m.size.toNat then ((nv.file m.Lid)[k]?).getD 0 else buf k

section Agreement

variable {P : Parcel} {ch : Channel} {lib : Libnvram} {io : Io} {m m' : Map} {count : ℕ}
  {nv : Nvram} {buf : Buffer} (hm : m ∈ NvramClient.map) (hcount : 0 < count)
  (hlook : NvramService.lookup ch.host m.name = some m')

include hm hcount hlook

/-- Inside the record and aligned, both loops do what the direct path does. -/
theorem agrees_of_dvd (hio : io.Ideal) (hrec : lib.rec_size m.Lid * lib.rec_num m.Lid = m.size)
    (hL : m'.Lid = m.Lid) (hle : count ≤ m.size.toNat) (h4 : 4 ∣ count) (hnv : Declared nv) :
    Agrees P ch lib io m count nv buf := by
  obtain ⟨hname, -, hsize, -, hlt, -⟩ := map_entry hm
  obtain ⟨hreach, -, -⟩ := loopCount_spec hm hcount
  have hmin : min count m.size.toNat = count := Nat.min_eq_left hle
  have hall : min (TRANSFER_LIMIT * loopCount m count) count = count := by omega
  have hlen : count ≤ (nv.file m'.Lid).length := by
    rw [hL, hnv m hm]
    exact hle
  have hwrite := chunked_writeNv_file (P := P) hm hcount hlook nv buf
  have hread := chunked_readNv_eq (P := P) hm hcount hlook nv buf
  rw [hall, hL] at hwrite
  rw [replies_of_dvd hm hcount hle hlen h4, hL] at hread
  rw [hL] at hlen
  constructor
  · rw [hwrite, writeNv_served_file hname hcount hio (by rw [hrec]; exact hsize) (by omega), hmin]
  · intro k
    rw [hwrite, put_file_self, getElem?_overwrite_block, hmin]
  · rw [hread, readNv_eq hname hcount hio (by rw [hrec]; exact hsize) (by omega), hmin]
  · rw [hread, hmin]
    dsimp only
    congr 1
    funext k
    exact splice_slice buf _ hlen 0 k

/-- A write that lands in another record leaves a byte of this one behind. -/
theorem not_agrees_of_Lid (hL : m'.Lid ≠ m.Lid) (hbyte : (nv.file m.Lid)[0]? ≠ some (buf 0)) :
    ¬ Agrees P ch lib io m count nv buf := by
  intro h
  obtain ⟨-, -, -, hpos, -, -⟩ := map_entry hm
  have hzero := h.write_bytes 0
  rw [chunked_writeNv_file hm hcount hlook, put_file_of_ne nv hL.symm, if_pos (by omega)] at hzero
  exact hbyte hzero

/-- A count past the record size makes the last chunk lengthen the record. -/
theorem not_agrees_of_size_lt (hL : m'.Lid = m.Lid) (hlt : m.size.toNat < count)
    (hnv : Declared nv) : ¬ Agrees P ch lib io m count nv buf := by
  intro h
  have hend := h.write_bytes m.size.toNat
  have hover := size_lt_of_count hm hlt
  rw [chunked_writeNv_file hm hcount hlook, hL, put_file_self, getElem?_overwrite_block,
    if_pos hover, if_neg (by omega), List.getElem?_eq_none (by rw [hnv m hm])] at hend
  exact absurd hend (by simp)

/-- A count that is not a multiple of four makes the last reply's padding
replace buffer bytes behind the requested ones. -/
theorem not_agrees_of_not_dvd (hL : m'.Lid = m.Lid) (hle : count ≤ m.size.toNat) (h4 : ¬ 4 ∣ count)
    (hnv : Declared nv) (hbyte : buf count ≠ ch.reserved (loopCount m count - 1)
      (count - TRANSFER_LIMIT * (loopCount m count - 1))) :
    ¬ Agrees P ch lib io m count nv buf := by
  intro h
  have hread := h.read_bytes
  have hlen : count ≤ (nv.file m'.Lid).length := by
    rw [hL, hnv m hm]
    exact hle
  rw [chunked_readNv_eq hm hcount hlook] at hread
  have hpad := splice_of_getElem? buf 0 (replies ch nv m m' count)
    (replies_padding hm hcount hle hlen h4)
  have hat := congrFun (Option.some.inj hread) count
  rw [Nat.zero_add] at hpad
  rw [hpad, if_neg (by omega)] at hat
  exact hbyte hat.symm

end Agreement

theorem rec_size_tableLib : ∀ m ∈ NvramClient.map, tableLib.rec_size m.Lid = m.size := by decide

theorem blankNvram_declared : Declared blankNvram := by
  intro m hm
  simp only [blankNvram, List.length_replicate, rec_size_tableLib m hm]

/-- The paths agree on every content exactly when the service's scan selects
the record of the entry, the count stays within the record, and it is a
multiple of four. -/
theorem paths_agree_iff (P : Parcel) (ch : Channel) (lib : Libnvram) (io : Io) (hio : io.Ideal)
    (m : Map) (hm : m ∈ NvramClient.map) (hrec : lib.rec_size m.Lid * lib.rec_num m.Lid = m.size)
    (count : ℕ) (hcount : 0 < count) :
    (∀ nv buf, Declared nv → Agrees P ch lib io m count nv buf) ↔
      (NvramService.lookup ch.host m.name).map Map.Lid = some m.Lid ∧ count ≤ m.size.toNat ∧
        4 ∣ count := by
  have hscan : scan m.name NvramService.map = some m := by
    rw [map_eq]
    exact (map_entry hm).1
  obtain ⟨m', hlook⟩ := lookup_ne_none ch.host hscan
  rw [hlook, Option.map_some, Option.some.injEq]
  constructor
  · intro h
    have hL : m'.Lid = m.Lid := by
      by_contra hne
      refine not_agrees_of_Lid hm hcount hlook hne ?_
        (h blankNvram (fun _ => 1) blankNvram_declared)
      obtain ⟨-, -, -, hpos, -, -⟩ := map_entry hm
      have hin : 0 < (tableLib.rec_size m.Lid).toNat := by
        rw [rec_size_tableLib m hm]
        exact hpos
      simp [blankNvram, hin]
    have hle : count ≤ m.size.toNat := by
      by_contra hlt
      exact not_agrees_of_size_lt hm hcount hlook hL (by omega) blankNvram_declared
        (h blankNvram (fun _ => 1) blankNvram_declared)
    refine ⟨hL, hle, ?_⟩
    by_contra h4
    refine not_agrees_of_not_dvd hm hcount hlook hL hle h4 blankNvram_declared ?_
      (h blankNvram (fun _ => ch.reserved (loopCount m count - 1)
        (count - TRANSFER_LIMIT * (loopCount m count - 1)) + 1) blankNvram_declared)
    simp
  · rintro ⟨hL, hle, h4⟩ nv buf hnv
    exact agrees_of_dvd hm hcount hlook hio hrec hL hle h4 hnv

section Sample

def quietChannel : Channel := ⟨quietHost, fun _ _ => 0, fun _ => idealIo, fun _ => idealIo_ideal⟩

def entryH1 : Map := ⟨ascii ['H', '1'], 71, 80⟩

theorem entryH1_mem : entryH1 ∈ NvramClient.map := by decide

theorem lookup_entryH1 : NvramService.lookup quietChannel.host entryH1.name = some entryH1 := by
  decide

theorem paths_agree_iff_H1 :
    (∀ nv buf, Declared nv →
      Agrees binderParcel quietChannel tableLib idealIo entryH1 40 nv buf) ↔
      (NvramService.lookup quietChannel.host entryH1.name).map Map.Lid = some entryH1.Lid ∧
        40 ≤ entryH1.size.toNat ∧ 4 ∣ 40 :=
  paths_agree_iff binderParcel quietChannel tableLib idealIo idealIo_ideal entryH1 entryH1_mem rfl
    40 (by decide)

/-- Writing 100 bytes to the 80-byte record `H1` in chunks makes it 100 bytes
long, and reading 78 of its bytes in chunks clears two bytes behind them. -/
theorem chunks_exceed_H1 :
    ¬ Agrees binderParcel quietChannel tableLib idealIo entryH1 100 blankNvram (fun _ => 7) ∧
    ((Chunked.writeNv binderParcel (some (quietChannel.binder binderParcel)) blankNvram
      entryH1.name (some fun _ => 7) 100).2.file entryH1.Lid).length = 100 ∧
    ¬ Agrees binderParcel quietChannel tableLib idealIo entryH1 78 blankNvram (fun _ => 7) := by
  refine ⟨?_, ?_, ?_⟩
  · exact not_agrees_of_size_lt entryH1_mem (by decide) lookup_entryH1 rfl (by decide)
      blankNvram_declared
  · rw [chunked_writeNv_file entryH1_mem (by decide) lookup_entryH1, put_file_self,
      length_overwrite]
    · decide
    · decide
  · exact not_agrees_of_not_dvd entryH1_mem (by decide) lookup_entryH1 rfl (by decide) (by decide)
      blankNvram_declared (by decide)

end Sample

end Fixed.ChunkedTransfer
