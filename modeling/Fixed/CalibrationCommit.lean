import Fixed.SensorCali

/-!
What a new calibration rests on. The reading and writing functions return nothing, so
the program goes on with whatever the array and a calibration of zeros hold. A new
calibration is written only from data read in this run, and success told only of a
written calibration, exactly when the run is rejected or all twelve files are opened
and give or take their numbers.
-/
namespace Fixed.CalibrationCommit

open SensorCali

def Gives (e : Env) (f : Source) : Prop :=
  ∃ numbers, e.text f = some numbers ∧ f.fields.length ≤ numbers.length

structure Available (e : Env) : Prop where
  gSensor : ∀ i < 5, Gives e (.gSensor i)
  gySensor : ∀ i < 5, Gives e (.gySensor i)
  sensorCali : Gives e .sensorCali
  opens : e.opens = true
  takes : e.takes = true

def WasRead (f : Source) (events : List Event) : Prop := .read f f.fields.length ∈ events

/-- A calibration is written only from data read in this run, and success means that
one was written. -/
structure Committed (events : List Event) : Prop where
  samples : ∀ data, .write data ∈ events →
    ∀ i < 5, WasRead (.gSensor i) events ∧ WasRead (.gySensor i) events
  stored : ∀ data, .write data ∈ events → WasRead .sensorCali events
  success : .success ∈ events → ∃ data, .write data ∈ events

/-- The events of a reading function, which do not depend on what the fields held. -/
def readEvents (e : Env) (f : Source) : List Event := (readData e f fun _ => 0).2

theorem readData_events (e : Env) (f : Source) (data : AxisData) :
    (readData e f data).2 = readEvents e f := by
  unfold readEvents readData
  cases e.text f with
  | none => rfl
  | some numbers => rfl

theorem readEvents_of_none {e : Env} {f : Source} (h : e.text f = none) :
    readEvents e f = [.openFailed f] := by
  simp only [readEvents, readData, h]

theorem readEvents_of_some {e : Env} {f : Source} {numbers : List ℤ}
    (h : e.text f = some numbers) :
    readEvents e f = [.read f (min f.fields.length numbers.length)] := by
  simp only [readEvents, readData, h]

theorem wasRead_readEvents (e : Env) (f g : Source) :
    WasRead f (readEvents e g) ↔ g = f ∧ Gives e f := by
  cases htext : e.text g with
  | none =>
    rw [WasRead, readEvents_of_none htext]
    constructor
    · intro h
      simp at h
    · intro ⟨hgf, numbers, hsome, _⟩
      rw [← hgf, htext] at hsome
      cases hsome
  | some numbers =>
    rw [WasRead, readEvents_of_some htext, List.mem_singleton, Event.read.injEq]
    constructor
    · intro ⟨hfg, hcount⟩
      subst hfg
      exact ⟨rfl, numbers, htext, by omega⟩
    · intro ⟨hgf, numbers', hsome, hlen⟩
      subst hgf
      obtain rfl : numbers = numbers' := Option.some.inj (htext.symm.trans hsome)
      exact ⟨rfl, (min_eq_left hlen).symm⟩

theorem not_mem_readEvents (e : Env) (f : Source) :
    (∀ data, .write data ∉ readEvents e f) ∧ .success ∉ readEvents e f := by
  cases htext : e.text f with
  | none => simp [readEvents_of_none htext]
  | some numbers => simp [readEvents_of_some htext]

/-- The events of the first loop are those of its reading functions. -/
theorem mem_sampling (e : Env) (n : ℕ) (ev : Event) : ev ∈ (sampling e n).events ↔
    ∃ i < n, ev ∈ readEvents e (.gSensor i) ∨ ev ∈ readEvents e (.gySensor i) := by
  induction n with
  | zero =>
    constructor
    · intro h
      cases h
    · intro h
      obtain ⟨i, hi, -⟩ := h
      exact absurd hi (Nat.not_lt_zero i)
  | succ n ih =>
    rw [sampling_succ]
    simp only [sample, readGSensorData, readGYSensorData, readData_events, List.mem_append, ih]
    constructor
    · intro h
      rcases h with (⟨i, hi, h⟩ | h) | h
      · exact ⟨i, Nat.lt_succ_of_lt hi, h⟩
      · exact ⟨n, Nat.lt_succ_self n, Or.inl h⟩
      · exact ⟨n, Nat.lt_succ_self n, Or.inr h⟩
    · intro h
      obtain ⟨i, hi, h⟩ := h
      rcases Nat.lt_succ_iff_lt_or_eq.mp hi with hlt | heq
      · exact Or.inl (Or.inl ⟨i, hlt, h⟩)
      · subst heq
        rcases h with h | h
        · exact Or.inl (Or.inr h)
        · exact Or.inr h

theorem not_mem_sampling {e : Env} {ev : Event} (h : ∀ f, ev ∉ readEvents e f) (n : ℕ) :
    ev ∉ (sampling e n).events := by
  intro hmem
  obtain ⟨i, _, hg | hgy⟩ := (mem_sampling e n ev).mp hmem
  · exact h (.gSensor i) hg
  · exact h (.gySensor i) hgy

def newCalibration (e : Env) : AxisData :=
  calibration (readSensorCali e fun _ => 0).1 (average e)

theorem main_of_not_rejected {e : Env} (h : ¬ Rejected e) :
    main e = (sampling e 5).events ++ readEvents e .sensorCali ++
      writeSensorCali e (newCalibration e) ++ [.success] := by
  rw [main, if_neg h]
  rfl

/-- A run writes a calibration exactly if it is not rejected and the file takes it. -/
theorem write_mem_main (e : Env) (data : AxisData) : .write data ∈ main e ↔
    ¬ Rejected e ∧ e.opens = true ∧ e.takes = true ∧ data = newCalibration e := by
  have hread : ∀ f, .write data ∉ readEvents e f := fun f => (not_mem_readEvents e f).1 data
  have hsampling := not_mem_sampling hread 5
  by_cases hrej : Rejected e
  · simp [main, hsampling, hrej]
  · rw [main_of_not_rejected hrej]
    simp only [List.mem_append, List.mem_singleton, hsampling, hread, false_or, writeSensorCali,
      reduceCtorEq, or_false]
    cases e.opens with
    | false => simp
    | true =>
      cases e.takes with
      | false => simp
      | true => simp [hrej]

theorem success_mem_main (e : Env) : .success ∈ main e ↔ ¬ Rejected e := by
  have hsampling := not_mem_sampling (fun f => (not_mem_readEvents e f).2) 5
  by_cases hrej : Rejected e
  · simp [main, hsampling, hrej]
  · rw [main_of_not_rejected hrej]
    simp [hrej]

/-- Which files a run that is not rejected has read in full. -/
theorem wasRead_main {e : Env} (h : ¬ Rejected e) (f : Source) :
    WasRead f (main e) ↔
      ((∃ i < 5, f = .gSensor i ∨ f = .gySensor i) ∨ f = .sensorCali) ∧ Gives e f := by
  have hwrite : .read f f.fields.length ∉ writeSensorCali e (newCalibration e) := by
    unfold writeSensorCali
    split
    · split
      · simp
      · simp
    · simp
  rw [main_of_not_rejected h, WasRead]
  simp only [List.mem_append, List.mem_singleton, hwrite, or_false, reduceCtorEq, mem_sampling]
  change (∃ i < 5, WasRead f (readEvents e (.gSensor i)) ∨
    WasRead f (readEvents e (.gySensor i))) ∨ WasRead f (readEvents e .sensorCali) ↔ _
  simp only [wasRead_readEvents]
  constructor
  · intro hread
    rcases hread with ⟨i, hi, ⟨hf, hgives⟩ | ⟨hf, hgives⟩⟩ | ⟨hf, hgives⟩
    · exact ⟨Or.inl ⟨i, hi, Or.inl hf.symm⟩, hgives⟩
    · exact ⟨Or.inl ⟨i, hi, Or.inr hf.symm⟩, hgives⟩
    · exact ⟨Or.inr hf.symm, hgives⟩
  · intro hread
    rcases hread with ⟨⟨i, hi, hf | hf⟩ | hf, hgives⟩
    · exact Or.inl ⟨i, hi, Or.inl ⟨hf.symm, hgives⟩⟩
    · exact Or.inl ⟨i, hi, Or.inr ⟨hf.symm, hgives⟩⟩
    · exact Or.inr ⟨hf.symm, hgives⟩

theorem committed_of_available {e : Env} (h : Available e) : Committed (main e) where
  samples := by
    intro data hwrite i hi
    have hrej := ((write_mem_main e data).mp hwrite).1
    exact ⟨(wasRead_main hrej _).mpr ⟨Or.inl ⟨i, hi, Or.inl rfl⟩, h.gSensor i hi⟩,
      (wasRead_main hrej _).mpr ⟨Or.inl ⟨i, hi, Or.inr rfl⟩, h.gySensor i hi⟩⟩
  stored := by
    intro data hwrite
    have hrej := ((write_mem_main e data).mp hwrite).1
    exact (wasRead_main hrej _).mpr ⟨Or.inr rfl, h.sensorCali⟩
  success := by
    intro hsuccess
    have hrej := (success_mem_main e).mp hsuccess
    exact ⟨newCalibration e, (write_mem_main e _).mpr ⟨hrej, h.opens, h.takes, rfl⟩⟩

theorem committed_of_rejected {e : Env} (h : Rejected e) : Committed (main e) where
  samples data hwrite := absurd h ((write_mem_main e data).mp hwrite).1
  stored data hwrite := absurd h ((write_mem_main e data).mp hwrite).1
  success hsuccess := absurd h ((success_mem_main e).mp hsuccess)

theorem available_of_committed {e : Env} (hrej : ¬ Rejected e) (h : Committed (main e)) :
    Available e := by
  obtain ⟨data, hwrite⟩ := h.success ((success_mem_main e).mpr hrej)
  obtain ⟨-, hopens, htakes, -⟩ := (write_mem_main e data).mp hwrite
  have hsamples := h.samples data hwrite
  have hstored := h.stored data hwrite
  exact {
    gSensor := fun i hi => ((wasRead_main hrej _).mp (hsamples i hi).1).2
    gySensor := fun i hi => ((wasRead_main hrej _).mp (hsamples i hi).2).2
    sensorCali := ((wasRead_main hrej _).mp hstored).2
    opens := hopens
    takes := htakes }

/-- A calibration rests on data of the run, and success on a written calibration,
exactly if the run is rejected or no file fails it. -/
theorem committed_iff (e : Env) : Committed (main e) ↔ Rejected e ∨ Available e := by
  constructor
  · intro h
    by_cases hrej : Rejected e
    · exact Or.inl hrej
    · exact Or.inr (available_of_committed hrej h)
  · intro h
    rcases h with hrej | havail
    · exact committed_of_rejected hrej
    · exact committed_of_available havail

def unread : Env where
  text
    | .gSensor _ => some [0, 9800, 0]
    | .gySensor _ => some [0, 0, 0]
    | .sensorCali => none
  stack _ _ := 0
  opens := true
  takes := true

/-- The stored calibration is overwritten without having been read. -/
theorem commits_without_data : ¬ ∀ e, Committed (main e) := by
  intro hall
  have hrej : ¬ Rejected unread := by decide
  have hstored := (available_of_committed hrej (hall unread)).sensorCali
  obtain ⟨numbers, htext, -⟩ := hstored
  cases htext

end Fixed.CalibrationCommit
