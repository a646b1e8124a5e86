import Fixed.ByteFile
import Fixed.Truncation
import Mathlib.Data.Rat.Floor

/-!
The temperature of the camera module on its way to the application processor.
The main loop splits it into whole degrees and hundredths in two signed chars,
the event thread copies the chars to the head of an outgoing frame, and the
receiver puts two unsigned bytes of the frame together again. The receiver
finds what was printed, the hundredths truncated towards zero, exactly for the
temperatures above minus one hundredth of a degree.
-/
namespace Fixed.TempTelemetry

open ByteFile Truncation

abbrev TxBuff := Fin 4 → Int8

/-! The places of the pair, first and last, and of the two marks. -/

def tx0 : Fin 4 := 0

def tx1 : Fin 4 := 1

def tx2 : Fin 4 := 2

def tx3 : Fin 4 := 3

def initial : TxBuff := fun i => Int8.ofNat i

def temp1 (temp : ℚ) : Int8 := Int8.ofInt (trunc (temp * 100 / 100))

def temp2 (temp : ℚ) : Int8 := Int8.ofInt ((trunc (temp * 100)).tmod 100)

def storeTemp (txBuff : TxBuff) (temp : ℚ) : TxBuff :=
  Function.update (Function.update txBuff tx0 (temp1 temp)) tx3 (temp2 temp)

def printed (txBuff : TxBuff) : ℤ := (txBuff tx0).toInt * 100 + (txBuff tx3).toInt

def mark (txBuff : TxBuff) : TxBuff := Function.update (Function.update txBuff tx1 1) tx2 2

/-- The plane of the frame after `memcpy(frame->fbPtr[0], txBuff, sizeof(txBuff))`. -/
def stamp (txBuff : TxBuff) (plane : ℕ → UInt8) : ℕ → UInt8 :=
  splice plane 0 (List.ofFn fun i => (mark txBuff i).toUInt8)

/-- The link swaps the two bytes of each pair. -/
def link (plane : ℕ → UInt8) : ℕ → UInt8 := fun k => plane (if k % 2 = 0 then k + 1 else k - 1)

def movidiusTemp (base : ℕ → UInt8) : ℤ := (base 1).toNat * 100 + (base 2).toNat

def received (txBuff : TxBuff) (plane : ℕ → UInt8) (temp : ℚ) : ℤ :=
  movidiusTemp (link (stamp (storeTemp txBuff temp) plane))

theorem stamp_byte (txBuff : TxBuff) (plane : ℕ → UInt8) (i : Fin 4) :
    stamp txBuff plane i = (mark txBuff i).toUInt8 := by
  have hget : (List.ofFn fun i => (mark txBuff i).toUInt8)[(i : ℕ)]? =
      some (mark txBuff i).toUInt8 := by
    simp only [List.getElem?_ofFn, i.isLt, dite_true]
  have hsplice := splice_of_getElem? plane 0 _ hget
  rwa [Nat.zero_add] at hsplice

/-- The marks and the swap leave the pair at bytes one and two of the buffer. -/
theorem movidiusTemp_stamp (txBuff : TxBuff) (plane : ℕ → UInt8) :
    movidiusTemp (link (stamp txBuff plane)) =
      (txBuff tx0).toUInt8.toNat * 100 + (txBuff tx3).toUInt8.toNat := by
  have h0 : stamp txBuff plane 0 = (txBuff tx0).toUInt8 := stamp_byte txBuff plane tx0
  have h3 : stamp txBuff plane 3 = (txBuff tx3).toUInt8 := stamp_byte txBuff plane tx3
  simp [movidiusTemp, link, h0, h3]

theorem printed_storeTemp (txBuff : TxBuff) (temp : ℚ) :
    printed (storeTemp txBuff temp) = (temp1 temp).toInt * 100 + (temp2 temp).toInt := by
  simp [printed, storeTemp, tx0, tx3]

/-- The unsigned reading of a signed char. -/
theorem toUInt8_ofInt_toNat {x : ℤ} (hlo : -128 ≤ x) (hhi : x < 128) :
    ((Int8.ofInt x).toUInt8.toNat : ℤ) = if 0 ≤ x then x else x + 256 := by
  have hnat : ((Int8.ofInt x).toUInt8.toNat : ℤ) = x % 256 := by
    change (((BitVec.ofInt 8 x).toNat : ℕ) : ℤ) = x % 256
    simp only [BitVec.toNat_ofInt]
    omega
  rw [hnat]
  split <;> omega

/-- The value read back from a char that was stored in range. -/
theorem toInt_ofInt_of_range {x : ℤ} (hlo : -128 ≤ x) (hhi : x < 128) :
    (Int8.ofInt x).toInt = x :=
  Int8.toInt_ofInt_of_le (by omega) (by omega)

theorem temp1_eq (temp : ℚ) : temp1 temp = Int8.ofInt (trunc temp) := by
  have hcancel : temp * 100 / 100 = temp := by ring
  rw [temp1, hcancel]

theorem abs_whole_lt {temp : ℚ} (hlo : -128 < temp) (hhi : temp < 128) : |trunc temp| < 128 := by
  have habs : |temp| < (128 : ℕ) := abs_lt.mpr ⟨by exact_mod_cast hlo, by exact_mod_cast hhi⟩
  exact_mod_cast abs_trunc_lt habs

theorem abs_hundredths_lt (temp : ℚ) : |(trunc (temp * 100)).tmod 100| < 100 := by
  have hlt := Int.tmod_lt_of_pos (trunc (temp * 100)) (b := 100) (by omega)
  have hgt := Int.lt_tmod_of_pos (trunc (temp * 100)) (b := 100) (by omega)
  exact abs_lt.mpr ⟨hgt, hlt⟩

theorem whole_add_hundredths (temp : ℚ) :
    trunc temp * 100 + (trunc (temp * 100)).tmod 100 = trunc (temp * 100) := by
  exact_mod_cast trunc_mul_add_tmod temp (n := 100) (by omega)

/-- The firmware prints the temperature in hundredths, truncated towards zero. -/
theorem printed_eq (txBuff : TxBuff) {temp : ℚ} (hlo : -128 < temp) (hhi : temp < 128) :
    printed (storeTemp txBuff temp) = trunc (temp * 100) := by
  obtain ⟨hwlo, hwhi⟩ := abs_lt.mp (abs_whole_lt hlo hhi)
  obtain ⟨hflo, hfhi⟩ := abs_lt.mp (abs_hundredths_lt temp)
  rw [printed_storeTemp, temp1_eq, temp2, toInt_ofInt_of_range (by omega) hwhi,
    toInt_ofInt_of_range (by omega) (by omega)]
  exact whole_add_hundredths temp

theorem received_eq (txBuff : TxBuff) (plane : ℕ → UInt8) (temp : ℚ) :
    received txBuff plane temp =
      (temp1 temp).toUInt8.toNat * 100 + (temp2 temp).toUInt8.toNat := by
  simp [received, movidiusTemp_stamp, storeTemp, tx0, tx3]

/-- Unsigned bytes put the pair together to the printed value if that is not negative. -/
theorem received_eq_of_nonneg (txBuff : TxBuff) (plane : ℕ → UInt8) {temp : ℚ}
    (hlo : -128 < temp) (hhi : temp < 128) (hx : 0 ≤ trunc (temp * 100)) :
    received txBuff plane temp = trunc (temp * 100) := by
  obtain ⟨hwlo, hwhi⟩ := abs_lt.mp (abs_whole_lt hlo hhi)
  obtain ⟨hflo, hfhi⟩ := abs_lt.mp (abs_hundredths_lt temp)
  have hsum := whole_add_hundredths temp
  have hf : 0 ≤ (trunc (temp * 100)).tmod 100 := Int.tmod_nonneg 100 hx
  have hw : 0 ≤ trunc temp := by omega
  rw [received_eq, temp1_eq, temp2, toUInt8_ofInt_toNat (by omega) hwhi,
    toUInt8_ofInt_toNat (by omega) (by omega), if_pos hw, if_pos hf]
  exact hsum

/-- The receiver decodes the temperature that was printed, the hundredths
truncated towards zero, exactly for the temperatures above minus one hundredth. -/
theorem telemetry_decodes_iff (txBuff : TxBuff) (plane : ℕ → UInt8) (temp : ℚ)
    (hlo : -128 < temp) (hhi : temp < 128) :
    received txBuff plane temp = printed (storeTemp txBuff temp) ∧
        received txBuff plane temp = trunc (100 * temp) ∧
        printed (storeTemp txBuff temp) = trunc (100 * temp) ↔
      -1 < 100 * temp := by
  rw [mul_comm 100 temp, printed_eq txBuff hlo hhi, ← trunc_nonneg_iff]
  constructor
  · rintro ⟨heq, -, -⟩
    have hbytes := received_eq txBuff plane temp
    omega
  · intro hx
    have heq := received_eq_of_nonneg txBuff plane hlo hhi hx
    exact ⟨heq, heq, rfl⟩

/-- Room temperature with its hundredths is received as it was printed. -/
theorem telemetry_decodes_at_room :
    received initial (fun _ => 0) (2375 / 100) = printed (storeTemp initial (2375 / 100)) ∧
      received initial (fun _ => 0) (2375 / 100) = trunc (100 * (2375 / 100 : ℚ)) ∧
      printed (storeTemp initial (2375 / 100)) = trunc (100 * (2375 / 100 : ℚ)) :=
  (telemetry_decodes_iff initial (fun _ => 0) (2375 / 100) (by norm_num) (by norm_num)).mpr
    (by norm_num)

/-- Half a degree below zero is received as more than two degrees above. -/
theorem telemetry_garbled_below_zero :
    ¬ ∀ temp : ℚ, -128 < temp → temp < 128 →
      received initial (fun _ => 0) temp = printed (storeTemp initial temp) ∧
        received initial (fun _ => 0) temp = trunc (100 * temp) ∧
        printed (storeTemp initial temp) = trunc (100 * temp) := by
  intro hall
  obtain ⟨heq, -, -⟩ := hall (-1 / 2) (by norm_num) (by norm_num)
  have hreceived : received initial (fun _ => 0) (-1 / 2) = 206 := by decide +kernel
  have hprinted : printed (storeTemp initial (-1 / 2)) = -50 := by decide +kernel
  omega

end Fixed.TempTelemetry
