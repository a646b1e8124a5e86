import Mathlib.Data.List.Basic
import Mathlib.Data.Nat.Basic
import Mathlib.Data.Int.Basic
import Mathlib.Tactic.NormNum

/-!
What the NVRAM client and service rely on of a Binder parcel, which is not
part of this repository. A parcel is the list of its data bytes from the read
position on. Strings and integers are read back in the order they were
written, an exhausted parcel reads as the empty string and as zero, and raw
writes extend the data to a multiple of four bytes. `binderParcel` is the
layout of the Android library and shows that the reliance can be met.
-/
namespace Fixed.BinderParcel

abbrev String8 := List UInt8

def INT32_MAX : ℤ := 2 ^ 31 - 1

def Int32 (n : ℤ) : Prop := -2 ^ 31 ≤ n ∧ n < 2 ^ 31

def pad_size (n : ℕ) : ℕ := (n + 3) / 4 * 4

theorem le_pad_size (n : ℕ) : n ≤ pad_size n := by
  unfold pad_size
  omega

theorem pad_size_eq_iff (n : ℕ) : pad_size n = n ↔ 4 ∣ n := by
  unfold pad_size
  omega

/-- The parcel operations and the laws the two programs rely on. -/
structure Parcel where
  writeString8 : String8 → List UInt8
  writeInt32 : ℤ → List UInt8
  /-- What `write` appends after `n` bytes. -/
  padding : ℕ → List UInt8
  /-- The value read, and the data left behind it. -/
  readString8 : List UInt8 → String8 × List UInt8
  readInt32 : List UInt8 → ℤ × List UInt8
  length_padding : ∀ n, n + (padding n).length = pad_size n
  readString8_write : ∀ s rest, (s.length : ℤ) < INT32_MAX →
    readString8 (writeString8 s ++ rest) = (s, rest)
  readInt32_write : ∀ n rest, Int32 n → readInt32 (writeInt32 n ++ rest) = (n, rest)
  readString8_nil : readString8 [] = ([], [])
  readInt32_nil : readInt32 [] = (0, [])
  readInt32_range : ∀ data, Int32 (readInt32 data).1

def Parcel.write (P : Parcel) (bs : List UInt8) : List UInt8 := bs ++ P.padding bs.length

theorem Parcel.length_write (P : Parcel) (bs : List UInt8) :
    (P.write bs).length = pad_size bs.length := by
  rw [Parcel.write, List.length_append, P.length_padding]

/-- The bytes `writeInplace` reserves; their content is whatever memory holds.
Lengths that come from a negative integer are refused with a null pointer. -/
def writeInplace (reserved : ℕ → UInt8) (n : ℕ) : Option (List UInt8) :=
  if INT32_MAX < n then none else some ((List.range (pad_size n)).map reserved)

theorem writeInplace_of_le (reserved : ℕ → UInt8) {n : ℕ} (h : (n : ℤ) ≤ INT32_MAX) :
    writeInplace reserved n = some ((List.range (pad_size n)).map reserved) :=
  if_neg (by omega)

section Binder

def word (n : ℤ) : ℕ := (n % 2 ^ 32).toNat

def binderWriteInt32 (n : ℤ) : List UInt8 :=
  [UInt8.ofNat (word n), UInt8.ofNat (word n / 2 ^ 8), UInt8.ofNat (word n / 2 ^ 16),
    UInt8.ofNat (word n / 2 ^ 24)]

def signed (u : ℕ) : ℤ := if u < 2 ^ 31 then u else (u : ℤ) - 2 ^ 32

def binderReadInt32 : List UInt8 → ℤ × List UInt8
  | a :: b :: c :: d :: rest =>
    (signed (a.toNat + 2 ^ 8 * b.toNat + 2 ^ 16 * c.toNat + 2 ^ 24 * d.toNat), rest)
  | data => (0, data)

def binderPadding (n : ℕ) : List UInt8 := List.replicate (pad_size n - n) 0

def binderWriteString8 (s : String8) : List UInt8 :=
  binderWriteInt32 s.length ++
    if s.isEmpty then [] else s ++ [0] ++ binderPadding (s.length + 1)

def binderReadString8 (data : List UInt8) : String8 × List UInt8 :=
  let (size, rest) := binderReadInt32 data
  if 0 < size ∧ size < INT32_MAX ∧ pad_size (size.toNat + 1) ≤ rest.length then
    (rest.take size.toNat, rest.drop (pad_size (size.toNat + 1)))
  else ([], rest)

theorem binderReadInt32_write (n : ℤ) (rest : List UInt8) (hn : Int32 n) :
    binderReadInt32 (binderWriteInt32 n ++ rest) = (n, rest) := by
  obtain ⟨hlo, hhi⟩ := hn
  simp only [binderWriteInt32, binderReadInt32, List.cons_append, List.nil_append,
    UInt8.toNat_ofNat', Prod.mk.injEq, and_true]
  have hsum : word n % 2 ^ 8 + 2 ^ 8 * (word n / 2 ^ 8 % 2 ^ 8) +
      2 ^ 16 * (word n / 2 ^ 16 % 2 ^ 8) + 2 ^ 24 * (word n / 2 ^ 24 % 2 ^ 8) = word n := by
    unfold word
    omega
  rw [hsum]
  unfold signed word
  split <;> omega

theorem binderReadInt32_range (data : List UInt8) : Int32 (binderReadInt32 data).1 := by
  unfold binderReadInt32
  split
  · rename_i a b c d rest
    have ha := a.toNat_lt
    have hb := b.toNat_lt
    have hc := c.toNat_lt
    have hd := d.toNat_lt
    unfold Int32 signed
    split <;> constructor <;> omega
  · exact ⟨by norm_num, by norm_num⟩

theorem length_binderPadding (n : ℕ) : n + (binderPadding n).length = pad_size n := by
  have h := le_pad_size n
  simp only [binderPadding, List.length_replicate]
  omega

theorem binderReadString8_write (s : String8) (rest : List UInt8)
    (hs : (s.length : ℤ) < INT32_MAX) :
    binderReadString8 (binderWriteString8 s ++ rest) = (s, rest) := by
  have hrange : Int32 s.length := by
    unfold INT32_MAX at hs
    exact ⟨by omega, by omega⟩
  unfold binderReadString8 binderWriteString8
  rw [List.append_assoc, binderReadInt32_write _ _ hrange]
  by_cases hne : s = []
  · subst hne
    simp
  · have hpos : 0 < s.length := List.length_pos_iff.mpr hne
    have hpad := length_binderPadding (s.length + 1)
    have hemp : s.isEmpty = false := by simpa using hne
    have hfit : pad_size (s.length + 1) ≤
        ((s ++ [0] ++ binderPadding (s.length + 1)) ++ rest).length := by
      simp only [List.length_append, List.length_singleton]
      omega
    have hdrop : (s ++ [0] ++ binderPadding (s.length + 1)).length = pad_size (s.length + 1) := by
      simp only [List.length_append, List.length_singleton]
      omega
    simp only [hemp, Bool.false_eq_true, if_false, Int.toNat_natCast]
    rw [if_pos ⟨by omega, hs, hfit⟩]
    refine Prod.ext ?_ ?_
    · simp
    · rw [← hdrop, List.drop_left]

/-- The layout of the Android library: little-endian words, strings with a
length in front and a terminator behind. -/
def binderParcel : Parcel where
  writeString8 := binderWriteString8
  writeInt32 := binderWriteInt32
  padding := binderPadding
  readString8 := binderReadString8
  readInt32 := binderReadInt32
  length_padding := length_binderPadding
  readString8_write := binderReadString8_write
  readInt32_write := binderReadInt32_write
  readString8_nil := rfl
  readInt32_nil := rfl
  readInt32_range := binderReadInt32_range

end Binder

end Fixed.BinderParcel
