import Fixed.NvramClient
import Fixed.LastWriter

/-!
The records as a store of fixed-size byte arrays under the compiled `readNv`
and `writeNv`. The calls run while the service is published, opens succeed
and transfers move all bytes asked for; the device then behaves as a family
of byte cells, one for each name and position, under partial updates. The
bytes a read delivers follow from the last-writer law of such cells.
-/
namespace Fixed.RecordStore

open ByteFile LastWriter BinderParcel NvramTable NvramDevice NvramClient

/-- `rec_size * rec_num` is the size `S` of the record, an `int`. -/
structure Sized (lib : Libnvram) (S : ℤ → ℕ) : Prop where
  eq : ∀ m ∈ map, lib.rec_size m.Lid * lib.rec_num m.Lid = S m.Lid
  lt : ∀ m ∈ map, S m.Lid < 2 ^ 31

/-- What surrounds a call that is not disturbed: its own file transfer works,
while the service process and its file accesses are arbitrary. -/
structure Surroundings where
  io : Io
  ideal : io.Ideal
  host : NvramService.Host
  serviceIo : Io

inductive Call
  | readNv (env : Surroundings) (name : String8) (buf : Option Buffer) (count : ℕ)
  | writeNv (env : Surroundings) (name : String8) (buf : Option Buffer) (count : ℕ)

def exec (P : Parcel) (lib : Libnvram) (nv : Nvram) : Call → Nvram
  | .readNv _ _ _ _ => nv
  | .writeNv env name buf count =>
    (writeNv lib env.io (some (served P env.host env.serviceIo)) nv name buf count).2

def run (P : Parcel) (lib : Libnvram) (nv : Nvram) (calls : List Call) : Nvram :=
  calls.foldl (exec P lib) nv

def FixedSize (S : ℤ → ℕ) (nv : Nvram) : Prop := ∀ m ∈ map, (nv.file m.Lid).length = S m.Lid

def byteAt (nv : Nvram) : String8 × ℕ → UInt8
  | (name, k) =>
    match lookup name with
    | none => 0
    | some m => ((nv.file m.Lid)[k]?).getD 0

/-- The byte a call stores at position `k` of a name: a `writeNv` of that name
with a buffer that covers the position. -/
def stores (S : ℤ → ℕ) : Call → Update (String8 × ℕ) UInt8
  | .readNv _ _ _ _, _ => none
  | .writeNv _ _ none _, _ => none
  | .writeNv _ n (some src) count, (name, k) =>
    match lookup n with
    | none => none
    | some m => if streq n name ∧ k < min count (S m.Lid) then some (src k) else none

def latestByte (S : ℤ → ℕ) (calls : List Call) (name : String8) (k : ℕ) : Option UInt8 :=
  latest (calls.map (stores S)) (name, k)

theorem Lid_injective {m m' : Map} (hm : m ∈ map) (hm' : m' ∈ map) (h : m.Lid = m'.Lid) :
    m = m' := by
  have hall : ∀ a ∈ map, ∀ b ∈ map, a.Lid = b.Lid → a = b := by decide
  exact hall m hm m' hm' h

theorem lookup_congr {n name : String8} (h : streq n name = true) : lookup n = lookup name :=
  scan_congr ((streq_iff n name).mp h) map

theorem mem_of_lookup {name : String8} {m : Map} (h : lookup name = some m) : m ∈ map :=
  (scan_eq_some h).1

/-- Names of the same record are the same string. -/
theorem streq_of_Lid {n name : String8} {m m' : Map} (hm : lookup n = some m)
    (hm' : lookup name = some m') (h : m.Lid = m'.Lid) : streq n name = true := by
  obtain ⟨hmem, hn⟩ := scan_eq_some hm
  obtain ⟨hmem', hname⟩ := scan_eq_some hm'
  have he : m = m' := Lid_injective hmem hmem' h
  rw [streq_iff] at hn hname ⊢
  rw [hn, hname, he]

/-- Only a `writeNv` of a known name with a buffer and a positive count acts. -/
theorem exec_cases (P : Parcel) (lib : Libnvram) (S : ℤ → ℕ) (nv : Nvram) (call : Call) :
    exec P lib nv call = nv ∧ (∀ c, stores S call c = none) ∨
      ∃ env name m src count, call = .writeNv env name (some src) count ∧
        lookup name = some m ∧ 0 < count := by
  cases call with
  | readNv env name buf count => exact Or.inl ⟨rfl, fun _ => rfl⟩
  | writeNv env name buf count =>
    cases hname : lookup name with
    | none =>
      refine Or.inl ⟨by simp only [exec, writeNv, hname], fun c => ?_⟩
      cases buf with
      | none => rfl
      | some src => simp only [stores, hname]
    | some m =>
      cases buf with
      | none => exact Or.inl ⟨by simp only [exec, writeNv, hname], fun _ => rfl⟩
      | some src =>
        by_cases hcount : 0 < count
        · exact Or.inr ⟨env, name, m, src, count, rfl, hname, hcount⟩
        · have hz : count = 0 := by omega
          subst hz
          refine Or.inl ⟨by simp [exec, writeNv, hname], fun c => ?_⟩
          simp [stores, hname]

section Device

variable {P : Parcel} {lib : Libnvram} {S : ℤ → ℕ} (hlib : Sized lib S)

include hlib

/-- The file transfer of an undisturbed `writeNv`, backup transaction included. -/
theorem writeNv_file (env : Surroundings) (nv : Nvram) {name : String8} {m : Map}
    (hname : lookup name = some m) (src : Buffer) {count : ℕ} (hcount : 0 < count) (Lid : ℤ) :
    (exec P lib nv (.writeNv env name (some src) count)).file Lid =
      if Lid = m.Lid then overwrite 0 (nv.file m.Lid) 0 (block src 0 (min count (S m.Lid)))
      else nv.file Lid := by
  have hmem := mem_of_lookup hname
  have hfile : (exec P lib nv (.writeNv env name (some src) count)).file = _ :=
    writeNv_served_file hname hcount env.ideal (hlib.eq m hmem) (hlib.lt m hmem) P env.host
      env.serviceIo src
  rw [hfile]
  by_cases hL : Lid = m.Lid
  · subst hL
    rw [if_pos rfl, put_file_self]
  · rw [if_neg hL, put_file_of_ne nv hL]

theorem exec_fixedSize (nv : Nvram) (call : Call) (h : FixedSize S nv) :
    FixedSize S (exec P lib nv call) := by
  rcases exec_cases P lib S nv call with ⟨hid, -⟩ | ⟨env, name, m, src, count, rfl, hname, hc⟩
  · rw [hid]
    exact h
  · intro r hr
    rw [writeNv_file hlib env nv hname src hc]
    split
    · rename_i hL
      have hlen := h m (mem_of_lookup hname)
      rw [hL, length_overwrite_of_le _ _ _ _ (by rw [length_block]; omega), hlen]
    · exact h r hr

/-- One call acts on the bytes of all names by the update it stands for. -/
theorem byteAt_exec (nv : Nvram) (call : Call) :
    byteAt (exec P lib nv call) = assign (byteAt nv) (stores S call) := by
  funext c
  obtain ⟨name, k⟩ := c
  rcases exec_cases P lib S nv call with ⟨hid, hst⟩ | ⟨env, n, m, src, count, rfl, hn, hc⟩
  · rw [hid, assign, hst]
    rfl
  · simp only [byteAt, assign, stores, hn]
    cases hname : lookup name with
    | none =>
      have hne : ¬ streq n name = true := by
        intro hs
        rw [lookup_congr hs, hname] at hn
        exact absurd hn (by simp)
      simp [hne]
    | some m' =>
      dsimp only
      rw [writeNv_file hlib env nv hn src hc]
      by_cases hL : m'.Lid = m.Lid
      · have hs : streq n name = true := streq_of_Lid hn hname hL.symm
        have hm : m' = m := by
          rw [lookup_congr hs, hname] at hn
          exact Option.some.inj hn
        subst hm
        rw [if_pos rfl, getElem?_overwrite_block]
        by_cases hk : k < min count (S m'.Lid)
        · rw [if_pos hk, if_pos ⟨hs, hk⟩]
          rfl
        · rw [if_neg hk, if_neg fun hand => hk hand.2]
          rfl
      · have hs : ¬ streq n name = true := by
          intro hs
          rw [lookup_congr hs, hname] at hn
          exact hL (congrArg Map.Lid (Option.some.inj hn))
        rw [if_neg hL]
        simp [hs]

/-- The size of every record survives every run. -/
theorem run_fixedSize {nv : Nvram} (h : FixedSize S nv) (calls : List Call) :
    FixedSize S (run P lib nv calls) :=
  foldl_invariant (exec_fixedSize hlib) h calls

/-- The last-writer law of the device. -/
theorem byteAt_run (nv : Nvram) (calls : List Call) (name : String8) (k : ℕ) :
    byteAt (run P lib nv calls) (name, k) =
      (latestByte S calls name k).getD (byteAt nv (name, k)) :=
  observe_foldl (byteAt_exec hlib) nv calls (name, k)

/-- An undisturbed read of a known name delivers the leading record bytes. -/
theorem readNv_spec (env : Surroundings) {nv : Nvram} (h : FixedSize S nv) {name : String8}
    {m : Map} (hname : lookup name = some m) (dst : Buffer) {count : ℕ} (hcount : 0 < count) :
    readNv lib env.io nv name (some dst) count =
      (((min count (S m.Lid) : ℕ) : ℤ), some fun k =>
        if k < min count (S m.Lid) then byteAt nv (name, k) else dst k) := by
  have hmem := mem_of_lookup hname
  have hle : min count (S m.Lid) ≤ (nv.file m.Lid).length := by
    rw [h m hmem]
    exact Nat.min_le_right _ _
  rw [readNv_eq hname hcount env.ideal (hlib.eq m hmem) (hlib.lt m hmem)]
  refine Prod.ext ?_ ?_
  · rw [length_slice, Nat.sub_zero, Nat.min_eq_left hle]
  · change some _ = some _
    congr 1
    funext k
    rw [splice_slice dst _ hle 0 k]
    simp only [byteAt, hname]

end Device

theorem readNv_ok {lib : Libnvram} {io : Io} {nv : Nvram} {name : String8} {buf : Option Buffer}
    {count : ℕ} (h : 0 ≤ (readNv lib io nv name buf count).1) :
    ∃ m dst, lookup name = some m ∧ buf = some dst ∧ 0 < count := by
  unfold readNv at h
  cases hname : lookup name with
  | none => simp [hname, ERROR_NO_FILE] at h
  | some m =>
    cases buf with
    | none => simp [hname, ERROR_PARAMETER] at h
    | some dst =>
      by_cases hcount : 0 < count
      · exact ⟨m, dst, rfl, rfl, hcount⟩
      · have hz : count = 0 := by omega
        subst hz
        simp [hname, ERROR_PARAMETER] at h

/-- The store as a map of fixed-size byte records: what every run leaves to be
read, where it may write, and which calls do nothing. -/
structure ByteMap (P : Parcel) (lib : Libnvram) (S : ℤ → ℕ) (nv : Nvram) (calls : List Call) :
    Prop where
  /-- A read fails for an unknown name, a null buffer or a zero count, and only then. -/
  read_succeeds : ∀ (env : Surroundings) name buf count,
    0 ≤ (readNv lib env.io (run P lib nv calls) name buf count).1 ↔
      lookup name ≠ none ∧ buf ≠ none ∧ 0 < count
  /-- A successful read returns `min(count, S)`, delivers to each position below
  it the byte stored by the latest write of that name that covered it, else the
  initial one, and leaves the rest of the buffer alone. -/
  read_latest : ∀ (env : Surroundings) name buf count,
    0 ≤ (readNv lib env.io (run P lib nv calls) name buf count).1 →
    ∃ m dst, lookup name = some m ∧ buf = some dst ∧
      readNv lib env.io (run P lib nv calls) name buf count =
        (((min count (S m.Lid) : ℕ) : ℤ), some fun k =>
          if k < min count (S m.Lid) then
            (latestByte S calls name k).getD (((nv.file m.Lid)[k]?).getD 0)
          else dst k)
  /-- A call on one name leaves the record of every other name as it is. -/
  other_record : ∀ (env : Surroundings) n buf count name m, lookup name = some m →
    streq n name = false →
    (exec P lib (run P lib nv calls) (.writeNv env n buf count)).file m.Lid =
      (run P lib nv calls).file m.Lid
  size_kept : ∀ m ∈ map, ((run P lib nv calls).file m.Lid).length = S m.Lid
  /-- Unknown name, null buffer or zero count: nothing changes. -/
  idle : ∀ (env : Surroundings) name buf count,
    lookup name = none ∨ buf = none ∨ count = 0 →
    exec P lib (run P lib nv calls) (.writeNv env name buf count) = run P lib nv calls ∧
      (readNv lib env.io (run P lib nv calls) name buf count).2 = buf

theorem writeNv_idle (P : Parcel) (lib : Libnvram) (env : Surroundings) (nv : Nvram)
    {name : String8} {buf : Option Buffer} {count : ℕ}
    (h : lookup name = none ∨ buf = none ∨ count = 0) :
    exec P lib nv (.writeNv env name buf count) = nv := by
  rcases exec_cases P lib (fun _ => 0) nv (.writeNv env name buf count) with
    ⟨hid, -⟩ | ⟨_, _, m, src, _, hcall, hname, hcount⟩
  · exact hid
  · obtain ⟨rfl, rfl, rfl, rfl⟩ := Call.writeNv.inj hcall
    rcases h with hn | hb | hc
    · rw [hname] at hn
      exact absurd hn (by simp)
    · exact absurd hb (by simp)
    · omega

theorem readNv_idle (lib : Libnvram) (io : Io) (nv : Nvram) {name : String8}
    {buf : Option Buffer} {count : ℕ} (h : lookup name = none ∨ buf = none ∨ count = 0) :
    (readNv lib io nv name buf count).2 = buf := by
  unfold readNv
  cases hname : lookup name with
  | none => rfl
  | some m =>
    cases buf with
    | none => rfl
    | some dst =>
      have hz : count = 0 := by simpa [hname] using h
      subst hz
      rfl

/-- Every sequence of calls, with any names and counts, treats the records as
a map of fixed-size byte records. -/
theorem nvram_byteMap (P : Parcel) (lib : Libnvram) (S : ℤ → ℕ) (hlib : Sized lib S) (nv : Nvram)
    (h : FixedSize S nv) (calls : List Call) : ByteMap P lib S nv calls where
  read_succeeds env name buf count := by
    constructor
    · intro hok
      obtain ⟨m, dst, hname, rfl, hcount⟩ := readNv_ok hok
      exact ⟨by simp [hname], by simp, hcount⟩
    · rintro ⟨hname, hbuf, hcount⟩
      obtain ⟨m, hm⟩ := Option.ne_none_iff_exists'.mp hname
      obtain ⟨dst, rfl⟩ := Option.ne_none_iff_exists'.mp hbuf
      rw [readNv_spec hlib env (run_fixedSize hlib h calls) hm dst hcount]
      exact Int.natCast_nonneg _
  read_latest env name buf count hok := by
    obtain ⟨m, dst, hname, rfl, hcount⟩ := readNv_ok hok
    refine ⟨m, dst, hname, rfl, ?_⟩
    rw [readNv_spec hlib env (run_fixedSize hlib h calls) hname dst hcount]
    have hbyte : ∀ k, byteAt (run P lib nv calls) (name, k) =
        (latestByte S calls name k).getD (((nv.file m.Lid)[k]?).getD 0) := by
      intro k
      rw [byteAt_run hlib nv calls name k]
      simp only [byteAt, hname]
    simp only [hbyte]
  other_record env n buf count name m hname hne := by
    rcases exec_cases P lib S (run P lib nv calls) (.writeNv env n buf count) with
      ⟨hid, -⟩ | ⟨env', n', m', src, count', hcall, hn, hcount⟩
    · rw [hid]
    · rw [hcall, writeNv_file hlib env' _ hn src hcount, if_neg]
      intro hL
      obtain ⟨rfl, rfl, rfl, rfl⟩ := Call.writeNv.inj hcall
      rw [streq_of_Lid hn hname hL.symm] at hne
      exact absurd hne (by simp)
  size_kept := run_fixedSize hlib h calls
  idle env name buf count hidle :=
    ⟨writeNv_idle P lib env _ hidle, readNv_idle lib env.io _ hidle⟩

section Sample

def sampleSurroundings : Surroundings := ⟨idealIo, idealIo_ideal, quietHost, idealIo⟩

theorem tableLib_sized : Sized tableLib fun Lid => (tableLib.rec_size Lid).toNat :=
  ⟨by decide, by decide⟩

def overlapping : List Call :=
  [.writeNv sampleSurroundings (ascii ['H', '1']) (some fun _ => 7) 90,
    .writeNv sampleSurroundings (ascii ['H']) (some fun _ => 8) 5,
    .writeNv sampleSurroundings (ascii ['H', '1']) (some fun _ => 9) 3]

/-- A read of `H1` finds the bytes of both writes to it, in spite of that to `H`. -/
theorem nvram_byteMap_overlapping :
    ByteMap binderParcel tableLib (fun Lid => (tableLib.rec_size Lid).toNat) blankNvram
        overlapping ∧
      ∃ dst, readNv tableLib idealIo (run binderParcel tableLib blankNvram overlapping)
          (ascii ['H', '1']) (some fun _ => 1) 4 = (4, some dst) ∧
        dst 2 = 9 ∧ dst 3 = 7 ∧ dst 4 = 1 := by
  have hmap := nvram_byteMap binderParcel tableLib _ tableLib_sized blankNvram
    (fun m _ => by simp [blankNvram]) overlapping
  refine ⟨hmap, ?_⟩
  have hok := (hmap.read_succeeds sampleSurroundings (ascii ['H', '1']) (some fun _ => 1) 4).mpr
    ⟨by decide, by simp, by decide⟩
  obtain ⟨m, dst, hname, hdst, hread⟩ := hmap.read_latest _ _ _ _ hok
  obtain rfl := Option.some.inj hname
  obtain rfl := Option.some.inj hdst
  exact ⟨_, hread, by decide, by decide, by decide⟩

end Sample

end Fixed.RecordStore
