import Fixed.ByteFile
import Mathlib.Logic.Function.Basic
import Mathlib.Algebra.Ring.Int.Defs
import Mathlib.Algebra.Ring.Nat

/-!
The record files behind both NVRAM programs, as the C library presents them:
open through `NVM_GetFileDesc`, `lseek`, `read` and `write`. Whether an open
succeeds and how many of the requested bytes a transfer moves is decided by
the system, so each call takes these answers as an argument.
-/
namespace Fixed.NvramDevice

open ByteFile

/-- The record files by their Lid, and the system properties set so far. -/
structure Nvram where
  file : ℤ → List UInt8
  props : List (String × String)

def Nvram.put (nv : Nvram) (Lid : ℤ) (pos : ℕ) (bs : List UInt8) : Nvram :=
  { nv with file := Function.update nv.file Lid (overwrite 0 (nv.file Lid) pos bs) }

structure Libnvram where
  rec_size : ℤ → ℤ
  rec_num : ℤ → ℤ

/-- The system's answers during one open file: the descriptor, negative when
the open fails, and the bytes it is ready to move of `n` requested ones, with
`none` for a failing transfer. -/
structure Io where
  fd : ℤ
  moved : ℕ → Option ℕ

def Io.Ideal (io : Io) : Prop := 0 ≤ io.fd ∧ ∀ n, io.moved n = some n

structure F_ID where
  iFileDesc : ℤ
  Lid : ℤ
  pos : ℕ

def size_t (n : ℤ) : ℕ := (n % 2 ^ 64).toNat

def SSIZE_MAX : ℕ := 2 ^ 63 - 1

def NVM_GetFileDesc (io : Io) (Lid : ℤ) : F_ID := ⟨io.fd, Lid, 0⟩

/-- `SEEK_SET`; a negative offset or a bad descriptor leaves the position. -/
def lseek (f : F_ID) (offset : ℤ) : F_ID :=
  if f.iFileDesc < 0 ∨ offset < 0 then f else { f with pos := offset.toNat }

/-- The bytes a transfer of `n` bytes on a descriptor moves at most; `none`
where it fails. -/
def Io.granted (io : Io) (fd : ℤ) (n : ℕ) : Option ℕ :=
  if fd < 0 ∨ SSIZE_MAX < n then none else (io.moved n).map (min n)

def read (nv : Nvram) (io : Io) (f : F_ID) (n : ℕ) : ℤ × List UInt8 :=
  match io.granted f.iFileDesc n with
  | none => (-1, [])
  | some m =>
    let bs := slice (nv.file f.Lid) f.pos m
    (bs.length, bs)

def write (nv : Nvram) (io : Io) (f : F_ID) (src : ℕ → UInt8) (n : ℕ) : ℤ × Nvram :=
  match io.granted f.iFileDesc n with
  | none => (-1, nv)
  | some m =>
    let bs := block src 0 m
    (bs.length, nv.put f.Lid f.pos bs)

theorem put_file_self (nv : Nvram) (Lid : ℤ) (pos : ℕ) (bs : List UInt8) :
    (nv.put Lid pos bs).file Lid = overwrite 0 (nv.file Lid) pos bs :=
  Function.update_self ..

theorem put_file_of_ne (nv : Nvram) {Lid Lid' : ℤ} (h : Lid' ≠ Lid) (pos : ℕ)
    (bs : List UInt8) : (nv.put Lid pos bs).file Lid' = nv.file Lid' :=
  Function.update_of_ne h _ _

@[simp] theorem put_nil (nv : Nvram) (Lid : ℤ) (pos : ℕ) : nv.put Lid pos [] = nv := by
  simp [Nvram.put]

/-- Writes at adjoining positions are one write. -/
theorem put_put (nv : Nvram) (Lid : ℤ) (pos : ℕ) (a b : List UInt8) :
    (nv.put Lid pos a).put Lid (pos + a.length) b = nv.put Lid pos (a ++ b) := by
  simp only [Nvram.put, Function.update_self, Function.update_idem, overwrite_overwrite]

theorem size_t_natCast {n : ℕ} (h : n < 2 ^ 64) : size_t n = n := by
  unfold size_t
  omega

theorem size_t_of_nonneg {n : ℤ} (h0 : 0 ≤ n) (h : n < 2 ^ 31) : size_t n = n.toNat := by
  unfold size_t
  omega

@[simp] theorem NVM_GetFileDesc_Lid (io : Io) (Lid : ℤ) : (NVM_GetFileDesc io Lid).Lid = Lid := rfl

@[simp] theorem NVM_GetFileDesc_pos (io : Io) (Lid : ℤ) : (NVM_GetFileDesc io Lid).pos = 0 := rfl

@[simp] theorem NVM_GetFileDesc_fd (io : Io) (Lid : ℤ) :
    (NVM_GetFileDesc io Lid).iFileDesc = io.fd := rfl

@[simp] theorem lseek_Lid (f : F_ID) (offset : ℤ) : (lseek f offset).Lid = f.Lid := by
  unfold lseek
  split <;> rfl

@[simp] theorem lseek_fd (f : F_ID) (offset : ℤ) : (lseek f offset).iFileDesc = f.iFileDesc := by
  unfold lseek
  split <;> rfl

/-- A seek on a freshly opened file ends at the offset, or at the start when
the offset is negative. -/
theorem lseek_pos (io : Io) (Lid offset : ℤ) (hfd : 0 ≤ io.fd) :
    (lseek (NVM_GetFileDesc io Lid) offset).pos = offset.toNat := by
  unfold lseek
  split
  · rename_i h
    simp only [NVM_GetFileDesc_fd] at h
    simp only [NVM_GetFileDesc_pos]
    omega
  · rfl

theorem granted_ideal {io : Io} (h : io.Ideal) {n : ℕ} (hn : n ≤ SSIZE_MAX) :
    io.granted io.fd n = some n := by
  have hfd := h.1
  rw [Io.granted, if_neg (by omega), h.2]
  simp

theorem granted_le {io : Io} {fd : ℤ} {n m : ℕ} (h : io.granted fd n = some m) : m ≤ n := by
  unfold Io.granted at h
  split at h
  · exact absurd h (by simp)
  · obtain ⟨k, -, rfl⟩ := Option.map_eq_some_iff.mp h
    exact Nat.min_le_left n k

theorem granted_fd {io : Io} {fd : ℤ} {n m : ℕ} (h : io.granted fd n = some m) : 0 ≤ fd := by
  unfold Io.granted at h
  split at h
  · exact absurd h (by simp)
  · omega

@[simp] theorem write_props (nv : Nvram) (io : Io) (f : F_ID) (src : ℕ → UInt8) (n : ℕ) :
    (write nv io f src n).2.props = nv.props := by
  unfold write
  split <;> rfl

theorem write_of_granted {nv : Nvram} {io : Io} {f : F_ID} {src : ℕ → UInt8} {n m : ℕ}
    (h : io.granted f.iFileDesc n = some m) :
    (write nv io f src n).2 = nv.put f.Lid f.pos (block src 0 m) := by
  simp only [write, h]

theorem write_of_refused {nv : Nvram} {io : Io} {f : F_ID} {src : ℕ → UInt8} {n : ℕ}
    (h : io.granted f.iFileDesc n = none) : (write nv io f src n).2 = nv := by
  simp only [write, h]

end Fixed.NvramDevice
