import Mathlib.Algebra.BigOperators.Group.Finset.Basic
import Mathlib.Data.Finset.Range
import Mathlib.Logic.Function.Basic
import Fixed.MachineInt

/-!
The calibration program `QcomSensorCali`. Five rounds read the two sensors into an
array on the stack and add up the six axes. If no round lies too far from the
average, the stored calibration is read, moved by the average and written back. The
reading functions leave a field alone that the file gives no number for.
-/
namespace Fixed.SensorCali

open MachineInt

inductive Axis
  | x | y | z | rx | ry | rz
deriving DecidableEq, Repr

abbrev AxisData := Axis → ℤ

inductive Source
  | gSensor (i : ℕ)
  | gySensor (i : ℕ)
  | sensorCali
deriving DecidableEq, Repr

def Source.fields : Source → List Axis
  | .gSensor _ => [.x, .y, .z]
  | .gySensor _ => [.rx, .ry, .rz]
  | .sensorCali => [.x, .y, .z, .rx, .ry, .rz]

/-- What a run meets: the numbers that each text starts with if the file opens, what
the array holds before, and whether the calibration can be opened for writing and
takes the text. -/
structure Env where
  text : Source → Option (List ℤ)
  stack : ℕ → AxisData
  opens : Bool
  takes : Bool

inductive Event
  | openFailed (f : Source)
  | read (f : Source) (count : ℕ)
  | createFailed
  | write (data : AxisData)
  | failed
  | success

/-- The numbers go into the fields as far as there are any. -/
def sscanf (fields : List Axis) (numbers : List ℤ) (data : AxisData) : AxisData :=
  (fields.zip numbers).foldl (fun d p => Function.update d p.1 p.2) data

def readData (e : Env) (f : Source) (data : AxisData) : AxisData × List Event :=
  match e.text f with
  | none => (data, [.openFailed f])
  | some numbers =>
    (sscanf f.fields numbers data, [.read f (min f.fields.length numbers.length)])

def readGSensorData (e : Env) (i : ℕ) : AxisData → AxisData × List Event :=
  readData e (.gSensor i)

def readGYSensorData (e : Env) (i : ℕ) : AxisData → AxisData × List Event :=
  readData e (.gySensor i)

def readSensorCali (e : Env) : AxisData → AxisData × List Event := readData e .sensorCali

def writeSensorCali (e : Env) (data : AxisData) : List Event :=
  if e.opens then
    if e.takes then [.write data] else []
  else [.createFailed]

structure Sampling where
  rawData : ℕ → AxisData
  averageData : AxisData
  events : List Event

def sample (e : Env) (s : Sampling) (i : ℕ) : Sampling :=
  let g := readGSensorData e i (s.rawData i)
  let gy := readGYSensorData e i g.1
  { rawData := Function.update s.rawData i gy.1
    averageData := fun a => int (s.averageData a + gy.1 a)
    events := s.events ++ g.2 ++ gy.2 }

def sampling (e : Env) (n : ℕ) : Sampling :=
  (List.range n).foldl (sample e) ⟨e.stack, fun _ => 0, []⟩

def average (e : Env) : AxisData := fun a => ((sampling e 5).averageData a).tdiv 5

def deviation (averageData raw : AxisData) (a : Axis) : ℤ :=
  int (int (averageData a - raw a)).natAbs

def tmp1 (averageData raw : AxisData) : ℤ :=
  int (int (deviation averageData raw .x + deviation averageData raw .y) +
    deviation averageData raw .z)

def tmp2 (averageData raw : AxisData) : ℤ :=
  int (int (deviation averageData raw .rx + deviation averageData raw .ry) +
    deviation averageData raw .rz)

def Deviates (averageData raw : AxisData) : Prop :=
  400 < tmp1 averageData raw ∨ 50 < tmp2 averageData raw

instance (averageData raw : AxisData) : Decidable (Deviates averageData raw) :=
  inferInstanceAs (Decidable (_ ∨ _))

def Rejected (e : Env) : Prop := ∃ j < 5, Deviates (average e) ((sampling e 5).rawData j)

instance (e : Env) : Decidable (Rejected e) := inferInstanceAs (Decidable (∃ j < 5, _))

def calibration (caliData averageData : AxisData) : AxisData := fun a =>
  match a with
  | .y => int (caliData .y + int (averageData .y - 9800))
  | a => int (caliData a + averageData a)

def main (e : Env) : List Event :=
  if Rejected e then (sampling e 5).events ++ [.failed]
  else
    let cali := readSensorCali e fun _ => 0
    (sampling e 5).events ++ cali.2 ++ writeSensorCali e (calibration cali.1 (average e)) ++
      [.success]

theorem calibration_of_ne {a : Axis} (h : a ≠ .y) (caliData averageData : AxisData) :
    calibration caliData averageData a = int (caliData a + averageData a) := by
  cases a with
  | y => exact absurd rfl h
  | x | z | rx | ry | rz => rfl

/-- What the array holds for a round once the round is over. -/
def reading (e : Env) (i : ℕ) : AxisData :=
  (readGYSensorData e i (readGSensorData e i (e.stack i)).1).1

def total (f : ℕ → ℤ) : ℕ → ℤ
  | 0 => 0
  | n + 1 => int (total f n + f n)

theorem sampling_succ (e : Env) (n : ℕ) : sampling e (n + 1) = sample e (sampling e n) n := by
  rw [sampling, List.range_succ, List.foldl_append]
  rfl

/-- The first loop writes the rounds one by one and adds them up. -/
theorem sampling_spec (e : Env) (n : ℕ) :
    (∀ i, (sampling e n).rawData i = if i < n then reading e i else e.stack i) ∧
      ∀ a, (sampling e n).averageData a = total (fun i => reading e i a) n := by
  induction n with
  | zero =>
    constructor
    · intro i
      rfl
    · intro a
      rfl
  | succ n ih =>
    obtain ⟨hraw, hsum⟩ := ih
    have hround : (readGYSensorData e n
        (readGSensorData e n ((sampling e n).rawData n)).1).1 = reading e n := by
      rw [hraw, if_neg (Nat.lt_irrefl n), reading]
    rw [sampling_succ]
    constructor
    · intro i
      simp only [sample, hround]
      by_cases hi : i = n
      · rw [hi, Function.update_self, if_pos (Nat.lt_succ_self n)]
      · rw [Function.update_of_ne hi, hraw]
        by_cases hlt : i < n
        · rw [if_pos hlt, if_pos (show i < n + 1 by omega)]
        · rw [if_neg hlt, if_neg (show ¬ i < n + 1 by omega)]
    · intro a
      simp only [sample, hround, hsum, total]

theorem average_eq (e : Env) (a : Axis) :
    average e a = (total (fun i => reading e i a) 5).tdiv 5 := by
  rw [average, (sampling_spec e 5).2]

theorem rejected_iff (e : Env) :
    Rejected e ↔ ∃ j < 5, Deviates (average e) (reading e j) := by
  have hraw : ∀ j < 5, (sampling e 5).rawData j = reading e j := by
    intro j hj
    rw [(sampling_spec e 5).1, if_pos hj]
  constructor
  · intro ⟨j, hj, hdev⟩
    exact ⟨j, hj, hraw j hj ▸ hdev⟩
  · intro ⟨j, hj, hdev⟩
    exact ⟨j, hj, (hraw j hj).symm ▸ hdev⟩

/-- A sum whose parts all fit is the exact sum. -/
theorem total_eq_sum {f : ℕ → ℤ} {n : ℕ} (h : ∀ k ≤ n, InInt (∑ i ∈ Finset.range k, f i)) :
    total f n = ∑ i ∈ Finset.range n, f i := by
  induction n with
  | zero => rfl
  | succ n ih =>
    have hprefix := ih fun k hk => h k (show k ≤ n + 1 by omega)
    have hfits := h (n + 1) (Nat.le_refl _)
    rw [Finset.sum_range_succ] at hfits ⊢
    rw [total, hprefix, int_of_inInt hfits]

end Fixed.SensorCali
