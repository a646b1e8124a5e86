import Fixed.ByteFile
import Mathlib.Algebra.Ring.Int.Defs

/-!
`testPCClient` up to its first `send`. The two numbers of its command line,
the image size in kilobytes and the frame rate, are reduced modulo 256 into
one header byte each; the rest of the first 8192 bytes sent is image data, or
whatever follows the image buffer on the heap.
-/
namespace Fixed.StreamClient

open ByteFile

def INT_MAX : ℤ := 2 ^ 31 - 1

def imagesize (kb : ℤ) : ℤ := kb * 1024

def char (n : ℤ) : UInt8 := UInt8.ofNat (n % 256).toNat

/-- The client gets past its check of the arguments, the product within `int`. -/
structure Accepts (kb fps : ℤ) : Prop where
  imagesize_nonneg : 0 ≤ imagesize kb
  fps_nonneg : 0 ≤ fps
  in_int : imagesize kb ≤ INT_MAX

/-- The buffer and the heap behind it after `memset` and the three stores. -/
def send_buf (heap : ℕ → UInt8) (imagesize fps : ℤ) (c : UInt8) : ℕ → UInt8
  | 0 => c
  | 1 => char (fps % 256)
  | 2 => char (imagesize / 1024 % 256)
  | i => if (i : ℤ) < imagesize then c else heap i

def firstSend (heap : ℕ → UInt8) (kb fps : ℤ) (c : UInt8) : List UInt8 :=
  block (send_buf heap (imagesize kb) fps c) 0 8192

theorem char_mod (n : ℤ) : ((char (n % 256)).toNat : ℤ) = n % 256 := by
  unfold char
  rw [UInt8.toNat_ofNat']
  omega

/-- The three header bytes. -/
theorem firstSend_header (heap : ℕ → UInt8) (kb fps : ℤ) (c : UInt8) (rest : List UInt8) :
    (firstSend heap kb fps c ++ rest)[0]? = some c ∧
      (firstSend heap kb fps c ++ rest)[1]? = some (char (fps % 256)) ∧
      (firstSend heap kb fps c ++ rest)[2]? = some (char (kb % 256)) := by
  have hget : ∀ i, i < 8192 → (firstSend heap kb fps c ++ rest)[i]? =
      some (send_buf heap (imagesize kb) fps c i) := by
    intro i hi
    rw [List.getElem?_append_left (by rw [firstSend, length_block]; exact hi), firstSend,
      getElem?_block, if_pos hi, Nat.zero_add]
  have hkb : imagesize kb / 1024 = kb := by
    unfold imagesize
    omega
  refine ⟨hget 0 (by omega), hget 1 (by omega), ?_⟩
  rw [hget 2 (by omega), send_buf, hkb]

end Fixed.StreamClient
