import Fixed.CalibrationCommit
import Fixed.TruncatedMean

/-!
Calibrating twice. A driver that reports the raw readings less the stored calibration
shows a second run readings moved by the first one's average, and the gyroscope and
the axes `x` and `z` keep their calibration. The `y` axis keeps it exactly if the
division of its sum left no negative remainder; otherwise the second run is rejected
or takes one off.
-/
namespace Fixed.Recalibration

open MachineInt SensorCali CalibrationCommit TruncatedMean

/-- The readings of a driver that takes the stored calibration off. -/
def shown (raw : ℕ → AxisData) (stored : AxisData) (i : ℕ) : AxisData := fun a =>
  raw i a - stored a

def driver (raw : ℕ → AxisData) (stored : AxisData) (stack : ℕ → AxisData) : Env where
  text
    | .gSensor i => some [shown raw stored i .x, shown raw stored i .y, shown raw stored i .z]
    | .gySensor i => some [shown raw stored i .rx, shown raw stored i .ry, shown raw stored i .rz]
    | .sensorCali => some [stored .x, stored .y, stored .z, stored .rx, stored .ry, stored .rz]
  stack := stack
  opens := true
  takes := true

def Calibrates (e : Env) (c : AxisData) : Prop := .success ∈ main e ∧ .write c ∈ main e

def centre : Axis → ℤ
  | .y => 9800
  | _ => 0

theorem centre_of_ne {a : Axis} (h : a ≠ .y) : centre a = 0 := by
  cases a with
  | y => exact absurd rfl h
  | x | z | rx | ry | rz => rfl

def meanOf (d : ℕ → AxisData) : AxisData := fun a => mean (Finset.range 5) fun i => d i a

def distance (d : ℕ → AxisData) (j : ℕ) (a : Axis) : ℤ := |meanOf d a - d j a|

/-- No result of the two loops leaves the range of an `int`. -/
structure ExactLoops (d : ℕ → AxisData) : Prop where
  sums : ∀ a, ∀ k ≤ 5, InInt (∑ i ∈ Finset.range k, d i a)
  differences : ∀ j < 5, ∀ a, InInt (meanOf d a - d j a)
  distances : ∀ j < 5, ∀ a, InInt (distance d j a)
  pairs : ∀ j < 5, InInt (distance d j .x + distance d j .y) ∧
    InInt (distance d j .rx + distance d j .ry)
  triples : ∀ j < 5, InInt (distance d j .x + distance d j .y + distance d j .z) ∧
    InInt (distance d j .rx + distance d j .ry + distance d j .rz)

structure NoOverflow (raw : ℕ → AxisData) (stored : AxisData) : Prop
    extends ExactLoops (shown raw stored) where
  centred : InInt (meanOf (shown raw stored) .y - 9800)
  moved : ∀ a, InInt (stored a + (meanOf (shown raw stored) a - centre a))

def moved (raw : ℕ → AxisData) (stored : AxisData) : AxisData := fun a =>
  stored a + (meanOf (shown raw stored) a - centre a)

def Scatters (d : ℕ → AxisData) (j : ℕ) : Prop :=
  400 < distance d j .x + distance d j .y + distance d j .z ∨
    50 < distance d j .rx + distance d j .ry + distance d j .rz

theorem reading_driver (raw : ℕ → AxisData) (stored : AxisData) (stack : ℕ → AxisData) (i : ℕ) :
    reading (driver raw stored stack) i = shown raw stored i := by
  funext a
  cases a <;> rfl

theorem readSensorCali_driver (raw : ℕ → AxisData) (stored : AxisData) (stack : ℕ → AxisData)
    (d : AxisData) : (readSensorCali (driver raw stored stack) d).1 = stored := by
  funext a
  cases a <;> rfl

section Exact

variable {e : Env} {d : ℕ → AxisData}

theorem average_of_exact (hread : ∀ j, reading e j = d j) (h : ExactLoops d) :
    average e = meanOf d := by
  funext a
  have hsum : total (fun i => reading e i a) 5 = ∑ i ∈ Finset.range 5, d i a := by
    simp only [hread]
    exact total_eq_sum (h.sums a)
  rw [average_eq, hsum]
  rfl

theorem deviation_of_exact (h : ExactLoops d) {j : ℕ} (hj : j < 5) (a : Axis) :
    deviation (meanOf d) (d j) a = distance d j a := by
  have habs : ((meanOf d a - d j a).natAbs : ℤ) = distance d j a := (Int.abs_eq_natAbs _).symm
  rw [deviation, int_of_inInt (h.differences j hj a), habs, int_of_inInt (h.distances j hj a)]

theorem deviates_of_exact (h : ExactLoops d) {j : ℕ} (hj : j < 5) :
    Deviates (meanOf d) (d j) ↔ Scatters d j := by
  obtain ⟨hpair, hpair'⟩ := h.pairs j hj
  obtain ⟨htriple, htriple'⟩ := h.triples j hj
  have htmp1 : tmp1 (meanOf d) (d j) = distance d j .x + distance d j .y + distance d j .z := by
    simp only [tmp1, deviation_of_exact h hj]
    rw [int_of_inInt hpair, int_of_inInt htriple]
  have htmp2 : tmp2 (meanOf d) (d j) =
      distance d j .rx + distance d j .ry + distance d j .rz := by
    simp only [tmp2, deviation_of_exact h hj]
    rw [int_of_inInt hpair', int_of_inInt htriple']
  rw [Deviates, htmp1, htmp2, Scatters]

theorem rejected_of_exact (hread : ∀ j, reading e j = d j) (h : ExactLoops d) :
    Rejected e ↔ ∃ j < 5, Scatters d j := by
  rw [rejected_iff, average_of_exact hread h]
  constructor
  · intro ⟨j, hj, hdev⟩
    exact ⟨j, hj, (deviates_of_exact h hj).mp (hread j ▸ hdev)⟩
  · intro ⟨j, hj, hscatter⟩
    exact ⟨j, hj, (hread j).symm ▸ (deviates_of_exact h hj).mpr hscatter⟩

/-- Readings of moderate size are added up and compared exactly. -/
theorem exactLoops_of_abs_le (h : ∀ j < 5, ∀ a, |d j a| ≤ 10200) : ExactLoops d := by
  have hle : ∀ a, ∀ i ∈ Finset.range 5, |d i a| ≤ 10200 := by
    intro a i hi
    exact h i (Finset.mem_range.mp hi) a
  have hmean : ∀ a, |meanOf d a| ≤ 51000 := by
    intro a
    have hbound := abs_mean_le (hle a)
    rw [Finset.card_range] at hbound
    exact hbound
  have hdist : ∀ j < 5, ∀ a, 0 ≤ distance d j a ∧ distance d j a ≤ 61200 := by
    intro j hj a
    obtain ⟨hmlo, hmhi⟩ := abs_le.mp (hmean a)
    obtain ⟨hlo, hhi⟩ := abs_le.mp (h j hj a)
    exact ⟨abs_nonneg _, abs_le.mpr ⟨by omega, by omega⟩⟩
  refine ⟨fun a k hk => ?_, fun j hj a => ?_, fun j hj a => ?_, fun j hj => ?_, fun j hj => ?_⟩
  · have hprefix : ∀ i ∈ Finset.range k, |d i a| ≤ 10200 := by
      intro i hi
      have hik := Finset.mem_range.mp hi
      exact h i (show i < 5 by omega) a
    obtain ⟨hlo, hhi⟩ := abs_le.mp (abs_sum_le hprefix)
    rw [Finset.card_range] at hlo hhi
    exact ⟨by omega, by omega⟩
  · obtain ⟨hlo, hhi⟩ := abs_le.mp (hdist j hj a).2
    exact ⟨by omega, by omega⟩
  · obtain ⟨hlo, hhi⟩ := hdist j hj a
    exact ⟨by omega, by omega⟩
  · have hx := hdist j hj .x
    have hy := hdist j hj .y
    have hrx := hdist j hj .rx
    have hry := hdist j hj .ry
    exact ⟨⟨by omega, by omega⟩, by omega, by omega⟩
  · have hx := hdist j hj .x
    have hy := hdist j hj .y
    have hz := hdist j hj .z
    have hrx := hdist j hj .rx
    have hry := hdist j hj .ry
    have hrz := hdist j hj .rz
    exact ⟨⟨by omega, by omega⟩, by omega, by omega⟩

end Exact

section Twice

variable {raw : ℕ → AxisData} {stored : AxisData} {stack : ℕ → AxisData}

theorem newCalibration_of_exact (h : NoOverflow raw stored) :
    newCalibration (driver raw stored stack) = moved raw stored := by
  funext a
  have haverage := average_of_exact (reading_driver raw stored stack) h.toExactLoops
  have hin := int_of_inInt (h.moved a)
  rw [newCalibration, readSensorCali_driver, haverage, moved]
  by_cases ha : a = .y
  · subst ha
    simp only [calibration, int_of_inInt h.centred]
    exact hin
  · rw [centre_of_ne ha, Int.sub_zero] at hin ⊢
    rw [calibration_of_ne ha, hin]

theorem calibrates_iff (h : NoOverflow raw stored) (c : AxisData) :
    Calibrates (driver raw stored stack) c ↔
      ¬ Rejected (driver raw stored stack) ∧ c = moved raw stored := by
  rw [Calibrates, success_mem_main, write_mem_main, newCalibration_of_exact h]
  constructor
  · intro ⟨hrej, _, _, _, hc⟩
    exact ⟨hrej, hc⟩
  · intro ⟨hrej, hc⟩
    exact ⟨hrej, hrej, rfl, rfl, hc⟩

/-- The second run is shown the readings of the first one, centred. -/
theorem shown_moved (raw : ℕ → AxisData) (stored : AxisData) (j : ℕ) (a : Axis) :
    shown raw (moved raw stored) j a =
      recentre (Finset.range 5) (fun i => shown raw stored i a) (centre a) j := by
  simp only [shown, moved, recentre, meanOf]
  ring

/-- A reading lies as far from the centre as it lay from the average. -/
theorem centre_sub_shown_moved (raw : ℕ → AxisData) (stored : AxisData) (j : ℕ) (a : Axis) :
    centre a - shown raw (moved raw stored) j a =
      meanOf (shown raw stored) a - shown raw stored j a := by
  rw [shown_moved, sub_recentre]
  rfl

def restOf (d : ℕ → AxisData) (a : Axis) : ℤ := rest (Finset.range 5) fun i => d i a

theorem meanOf_moved_of_nonneg {a : Axis} (h : a = .y → 0 ≤ restOf (shown raw stored) a) :
    meanOf (shown raw (moved raw stored)) a = centre a := by
  have hs : (Finset.range 5).Nonempty := ⟨0, Finset.mem_range.mpr (by omega)⟩
  simp only [meanOf, shown_moved]
  by_cases ha : a = .y
  · subst ha
    exact mean_recentre_of_nonneg hs (by decide) (h rfl)
  · rw [centre_of_ne ha]
    exact mean_recentre_zero hs

theorem meanOf_moved_of_neg (h : restOf (shown raw stored) .y < 0) :
    meanOf (shown raw (moved raw stored)) .y = 9799 := by
  have hs : (Finset.range 5).Nonempty := ⟨0, Finset.mem_range.mpr (by omega)⟩
  simp only [meanOf, shown_moved]
  exact mean_recentre_of_neg hs (by decide) h

/-- Readings that a first run accepts are small when they are shown again. -/
theorem abs_shown_moved_le (h : ∀ j < 5, ¬ Scatters (shown raw stored) j) {j : ℕ} (hj : j < 5)
    (a : Axis) : |shown raw (moved raw stored) j a| ≤ 10200 := by
  have hscatter := h j hj
  have hdist : ∀ a, 0 ≤ distance (shown raw stored) j a := fun a => abs_nonneg _
  have hx := hdist .x
  have hy := hdist .y
  have hz := hdist .z
  have hrx := hdist .rx
  have hry := hdist .ry
  have hrz := hdist .rz
  rw [Scatters] at hscatter
  have hnear : distance (shown raw stored) j a ≤ 400 := by
    cases a <;> omega
  have hcentre : 0 ≤ centre a ∧ centre a ≤ 9800 := by
    cases a <;> decide
  rw [distance, ← centre_sub_shown_moved] at hnear
  obtain ⟨hlo, hhi⟩ := abs_le.mp hnear
  exact abs_le.mpr ⟨by omega, by omega⟩

theorem not_scatters_of_accepted (h : NoOverflow raw stored)
    (hrej : ¬ Rejected (driver raw stored stack)) :
    ∀ j < 5, ¬ Scatters (shown raw stored) j := by
  intro j hj hscatter
  have hread := reading_driver raw stored stack
  exact hrej ((rejected_of_exact hread h.toExactLoops).mpr ⟨j, hj, hscatter⟩)

/-- A second run after an accepted one is exact in both loops. -/
theorem exactLoops_moved (h : ∀ j < 5, ¬ Scatters (shown raw stored) j) :
    ExactLoops (shown raw (moved raw stored)) :=
  exactLoops_of_abs_le fun _ hj a => abs_shown_moved_le h hj a

/-- Without a negative remainder the second run sees every reading as far from its
average as the first one did. -/
theorem scatters_moved (h : 0 ≤ restOf (shown raw stored) .y) (j : ℕ) :
    Scatters (shown raw (moved raw stored)) j ↔ Scatters (shown raw stored) j := by
  have hdist : ∀ a,
      distance (shown raw (moved raw stored)) j a = distance (shown raw stored) j a := by
    intro a
    have hmean : meanOf (shown raw (moved raw stored)) a = centre a :=
      meanOf_moved_of_nonneg fun hy => hy ▸ h
    rw [distance, hmean, centre_sub_shown_moved, distance]
  simp only [Scatters, hdist]

theorem calibrates_again (h : NoOverflow raw stored) (hrej : ¬ Rejected (driver raw stored stack))
    (hrest : 0 ≤ restOf (shown raw stored) .y) (stack' : ℕ → AxisData) :
    Calibrates (driver raw (moved raw stored) stack') (moved raw stored) := by
  have haccepted := not_scatters_of_accepted h hrej
  have hmean : ∀ a, meanOf (shown raw (moved raw stored)) a = centre a := fun a =>
    meanOf_moved_of_nonneg fun hy => hy ▸ hrest
  have hagain : ∀ a, moved raw stored a +
      (meanOf (shown raw (moved raw stored)) a - centre a) = moved raw stored a := by
    intro a
    rw [hmean]
    omega
  have hexact : NoOverflow raw (moved raw stored) := {
    exactLoops_moved haccepted with
    centred := by
      rw [hmean]
      exact ⟨by decide, by decide⟩
    moved := by
      intro a
      rw [hagain]
      exact h.moved a }
  refine (calibrates_iff hexact _).mpr ⟨fun hrej' => ?_, funext fun a => (hagain a).symm⟩
  obtain ⟨j, hj, hscatter⟩ :=
    (rejected_of_exact (reading_driver raw _ stack') hexact.toExactLoops).mp hrej'
  exact haccepted j hj ((scatters_moved hrest j).mp hscatter)

def lowered (c : AxisData) : AxisData := Function.update c .y (int (c .y - 1))

theorem int_sub_one_ne {x : ℤ} (h : InInt x) : int (x - 1) ≠ x := by
  obtain ⟨hlo, hhi⟩ := h
  rw [int, Int.bmod_def]
  split
  · omega
  · omega

theorem lowered_ne (h : NoOverflow raw stored) : lowered (moved raw stored) ≠ moved raw stored := by
  intro heq
  have hy := congrFun heq .y
  rw [lowered, Function.update_self] at hy
  exact int_sub_one_ne (h.moved .y) hy

/-- With a negative remainder the second run arrives at one less. -/
theorem newCalibration_again (h : NoOverflow raw stored)
    (haccepted : ∀ j < 5, ¬ Scatters (shown raw stored) j)
    (hrest : restOf (shown raw stored) .y < 0) (stack' : ℕ → AxisData) :
    newCalibration (driver raw (moved raw stored) stack') = lowered (moved raw stored) := by
  have hexact := exactLoops_moved haccepted
  have haverage := average_of_exact (reading_driver raw (moved raw stored) stack') hexact
  funext a
  rw [newCalibration, readSensorCali_driver, haverage]
  by_cases ha : a = .y
  · subst ha
    have hint : int (9799 - 9800) = -1 := by decide
    rw [lowered, Function.update_self]
    simp only [calibration, meanOf_moved_of_neg hrest, hint]
    rfl
  · have hmean : meanOf (shown raw (moved raw stored)) a = centre a :=
      meanOf_moved_of_nonneg fun hy => absurd hy ha
    rw [lowered, Function.update_of_ne ha, calibration_of_ne ha, hmean, centre_of_ne ha,
      Int.add_zero]
    exact int_of_inInt (h.moved a)

end Twice

/-- The division of the sum of the `y` readings leaves no negative remainder. -/
def Settled (raw : ℕ → AxisData) (stored : AxisData) : Prop :=
  0 ≤ ∑ i ∈ Finset.range 5, shown raw stored i .y ∨
    5 ∣ ∑ i ∈ Finset.range 5, shown raw stored i .y

theorem settled_iff_rest (raw : ℕ → AxisData) (stored : AxisData) :
    Settled raw stored ↔ 0 ≤ restOf (shown raw stored) .y := by
  rw [restOf, rest_nonneg_iff, Finset.card_range]
  rfl

/-- After a first run without overflow, a second one on the same raw readings writes
the same calibration exactly if the sum of the first run's `y` readings is not
negative or a multiple of five. Otherwise it fails or takes one off the `y` axis. -/
theorem recalibration (raw : ℕ → AxisData) (stored c : AxisData) (stack stack' : ℕ → AxisData)
    (h : NoOverflow raw stored) (hfirst : Calibrates (driver raw stored stack) c) :
    (Calibrates (driver raw c stack') c ↔ Settled raw stored) ∧
      (¬ Settled raw stored → .failed ∈ main (driver raw c stack') ∨
        Calibrates (driver raw c stack') (lowered c)) := by
  obtain ⟨hrej, rfl⟩ := (calibrates_iff h c).mp hfirst
  have haccepted := not_scatters_of_accepted h hrej
  rw [settled_iff_rest]
  rcases Int.lt_or_le (restOf (shown raw stored) .y) 0 with hneg | hnonneg
  · have hnew := newCalibration_again h haccepted hneg stack'
    refine ⟨⟨fun hagain => ?_, fun hrest => absurd hrest (by omega)⟩, fun _ => ?_⟩
    · obtain ⟨-, -, -, heq⟩ := (write_mem_main _ _).mp hagain.2
      exact absurd (heq.trans hnew).symm (lowered_ne h)
    · by_cases hrej' : Rejected (driver raw (moved raw stored) stack')
      · refine Or.inl ?_
        rw [main, if_pos hrej']
        exact List.mem_append_right _ (List.mem_singleton_self _)
      · exact Or.inr ⟨(success_mem_main _).mpr hrej',
          (write_mem_main _ _).mpr ⟨hrej', rfl, rfl, hnew.symm⟩⟩
  · have hagain := calibrates_again h hrej hnonneg stack'
    exact ⟨⟨fun _ => hnonneg, fun _ => hagain⟩, fun hnot => absurd hnonneg hnot⟩

def unstored : AxisData := fun _ => 0

def level : ℕ → AxisData := fun _ a => centre a + 7

theorem abs_level_le (i : ℕ) (a : Axis) : |shown level unstored i a| ≤ 10200 := by
  have hcentre : |centre a + 7 - 0| ≤ 10200 := by
    cases a <;> decide
  exact hcentre

theorem noOverflow_level : NoOverflow level unstored := {
  exactLoops_of_abs_le (d := shown level unstored) fun j _ a => abs_level_le j a with
  centred := by decide
  moved := fun a => by cases a <;> decide }

theorem recalibration_level :
    Calibrates (driver level (fun _ => 7) fun _ => unstored) fun _ => 7 := by
  have hrej : ¬ Rejected (driver level unstored fun _ => unstored) := by decide
  have hmoved : (fun _ => 7) = moved level unstored := by
    funext a
    cases a <;> rfl
  have hfirst := (calibrates_iff noOverflow_level _).mpr ⟨hrej, hmoved⟩
  exact (recalibration level unstored _ _ _ noOverflow_level hfirst).1.mpr (Or.inl (by decide))

def tilted : ℕ → AxisData := fun i a => if i = 0 ∧ a = .y then -1 else 0

theorem abs_tilted_le (i : ℕ) (a : Axis) : |shown tilted unstored i a| ≤ 10200 := by
  rw [shown, tilted, unstored]
  split
  · decide
  · decide

theorem noOverflow_tilted : NoOverflow tilted unstored := {
  exactLoops_of_abs_le (d := shown tilted unstored) fun j _ a => abs_tilted_le j a with
  centred := by decide
  moved := fun a => by cases a <;> decide }

/-- The first run writes -9800 for the `y` axis, the second one -9801. -/
theorem second_calibration_differs : ¬ ∀ (raw : ℕ → AxisData) (stored c : AxisData)
    (stack stack' : ℕ → AxisData), NoOverflow raw stored →
      Calibrates (driver raw stored stack) c → Calibrates (driver raw c stack') c := by
  intro hall
  have hrej : ¬ Rejected (driver tilted unstored fun _ => unstored) := by decide
  have hfirst := (calibrates_iff noOverflow_tilted _).mpr ⟨hrej, rfl⟩
  have hsecond := hall tilted unstored _ _ (fun _ => unstored) noOverflow_tilted hfirst
  obtain ⟨-, -, -, heq⟩ := (write_mem_main _ _).mp hsecond.2
  exact absurd (congrFun heq .y) (by decide)

end Fixed.Recalibration
