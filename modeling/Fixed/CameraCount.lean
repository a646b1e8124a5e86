import Fixed.Loops
import Mathlib.Algebra.Ring.Nat
import Mathlib.Data.List.Nodup

/-!
The count of cameras in `get_num_of_cameras`. Each media device is asked for its
entities by counting their ids up from one, and the first id that does not exist ends
the search. So a camera counts only if no id below that of its node is missing, and
the count is exact if five such cameras are there or every camera is of that kind.
-/
namespace Fixed.CameraCount

open Loops

structure Entity where
  id : ℕ
  type : ℕ
  groupId : ℕ

/-- A media device, as its ioctls show it. `info` is the model that
`MEDIA_IOC_DEVICE_INFO` tells unless it fails, and `next` what
`MEDIA_IOC_ENUM_ENTITIES` finds for an id with the flag `MEDIA_ENT_ID_FLAG_NEXT`. -/
structure Device where
  info : Option String
  entities : List Entity
  next : ℕ → Option Entity
  one_le_id : ∀ e ∈ entities, 1 ≤ e.id
  id_lt : ∀ e ∈ entities, e.id < 2 ^ 31
  distinct : (entities.map Entity.id).Nodup
  next_mem : ∀ id e, next id = some e → e ∈ entities

def msmConfigurationName : String := "msm_config"

def msmCameraName : String := "msm_camera"

def mmCameraMaxNumSensors : ℕ := 5

def IsSensorInit (e : Entity) : Prop := e.type = 2 * 2 ^ 16 ∧ e.groupId = 14

def IsCameraNode (e : Entity) : Prop := e.type = 2 ^ 16 + 1 ∧ e.groupId = 2

instance : DecidablePred IsSensorInit := fun _ => inferInstanceAs (Decidable (_ ∧ _))

instance : DecidablePred IsCameraNode := fun _ => inferInstanceAs (Decidable (_ ∧ _))

def enumEntities (d : Device) (id : ℕ) : Option Entity :=
  if id < 2 ^ 31 then d.entities.find? fun e => e.id = id else d.next (id - 2 ^ 31)

/-- A round of the inner loops: `num_entities` is an unsigned number of 32 bits. -/
def enumRound (wanted : Entity → Prop) [DecidablePred wanted] (d : Device) (numEntities : ℕ) :
    Option Entity ⊕ ℕ :=
  match enumEntities d numEntities with
  | none => .inl none
  | some e => if wanted e then .inl (some e) else .inr ((numEntities + 1) % 2 ^ 32)

def scan (wanted : Entity → Prop) [DecidablePred wanted] (rounds : ℕ) (d : Device) :
    Option (Option Entity) :=
  iterate (enumRound wanted d) rounds 1

/-- The first loop, over the devices that can be opened. It finds the entity that
`subdev_name` is made of. -/
def subdevLoop (rounds : ℕ) : List Device → Option Entity → Option (Option Entity)
  | [], subdev => some subdev
  | d :: devices, subdev =>
    match d.info with
    | none => some subdev
    | some model =>
      if model ≠ msmConfigurationName then subdevLoop rounds devices subdev
      else
        match scan IsSensorInit rounds d with
        | none => none
        | some found => subdevLoop rounds devices (found.or subdev)

def cameraLoop (rounds : ℕ) : List Device → ℕ → Option ℕ
  | [], numCameras => some numCameras
  | d :: devices, numCameras =>
    match d.info with
    | none => some 0
    | some model =>
      if model ≠ msmCameraName then cameraLoop rounds devices numCameras
      else
        match scan IsCameraNode rounds d with
        | none => none
        | some found =>
          let counted := if found.isSome then numCameras + 1 else numCameras
          if mmCameraMaxNumSensors ≤ counted then some counted
          else cameraLoop rounds devices counted

def main (rounds : ℕ) (devices : List Device) : Option (Option Entity × ℕ) :=
  match subdevLoop rounds devices none, cameraLoop rounds devices 0 with
  | some subdev, some numCameras => some (subdev, numCameras)
  | _, _ => none

def Reports (devices : List Device) (numCameras : ℕ) : Prop :=
  ∃ rounds subdev, main rounds devices = some (subdev, numCameras)

def IsCamera (d : Device) : Prop :=
  d.info = some msmCameraName ∧ ∃ e ∈ d.entities, IsCameraNode e

/-- An entity of the kind is there, and so are all ids below its own. -/
def Reached (wanted : Entity → Prop) (d : Device) : Prop :=
  ∃ e ∈ d.entities, wanted e ∧ ∀ k < e.id, 1 ≤ k → ∃ e' ∈ d.entities, e'.id = k

def IsSeen (d : Device) : Prop := d.info = some msmCameraName ∧ Reached IsCameraNode d

instance : DecidablePred IsCamera := fun _ => inferInstanceAs (Decidable (_ ∧ ∃ e ∈ _, _))

instance : DecidablePred IsSeen := fun d => inferInstanceAs (Decidable (_ ∧
  ∃ e ∈ d.entities, IsCameraNode e ∧ ∀ k < e.id, 1 ≤ k → ∃ e' ∈ d.entities, e'.id = k))

section Enum

variable {wanted : Entity → Prop} [DecidablePred wanted] {d : Device} {n : ℕ}

theorem eq_of_id_eq {e e' : Entity} (he : e ∈ d.entities) (he' : e' ∈ d.entities)
    (h : e.id = e'.id) : e = e' :=
  List.inj_on_of_nodup_map d.distinct he he' h

theorem mem_of_enumEntities {id : ℕ} {e : Entity} (h : enumEntities d id = some e) :
    e ∈ d.entities ∧ (id < 2 ^ 31 → e.id = id) := by
  unfold enumEntities at h
  split at h
  · have hid := List.find?_some h
    exact ⟨List.mem_of_find?_eq_some h, fun _ => of_decide_eq_true hid⟩
  · rename_i hflag
    exact ⟨d.next_mem _ e h, fun hlt => absurd hlt hflag⟩

theorem enumEntities_ne_none {e : Entity} (he : e ∈ d.entities) :
    enumEntities d e.id ≠ none := by
  intro hnone
  rw [enumEntities, if_pos (d.id_lt e he)] at hnone
  have hall := List.find?_eq_none.mp hnone e he
  exact hall (decide_eq_true rfl)

theorem enumEntities_zero : enumEntities d 0 = none := by
  cases h : enumEntities d 0 with
  | none => rfl
  | some e =>
    obtain ⟨he, hid⟩ := mem_of_enumEntities h
    have hpos := d.one_le_id e he
    have hzero := hid (by decide)
    omega

/-- The ids up to the counter, or all of them once it is back at zero, exist and are not
those of wanted entities. -/
def Passed (wanted : Entity → Prop) (d : Device) (n : ℕ) : Prop :=
  n < 2 ^ 32 ∧ ∀ k, 1 ≤ k → k < 2 ^ 31 → k < n ∨ n = 0 → ∃ e ∈ d.entities, e.id = k ∧ ¬ wanted e

theorem passed_one (wanted : Entity → Prop) (d : Device) : Passed wanted d 1 := by
  refine ⟨by decide, fun k hlo _ hk => ?_⟩
  omega

theorem enumRound_goes_on {m : ℕ} (hn : Passed wanted d n) (h : enumRound wanted d n = .inr m) :
    Passed wanted d m ∧ n ≠ 0 ∧ m = (n + 1) % 2 ^ 32 := by
  obtain ⟨hlt, hpassed⟩ := hn
  unfold enumRound at h
  cases henum : enumEntities d n with
  | none =>
    rw [henum] at h
    cases h
  | some e =>
    rw [henum] at h
    have hne : n ≠ 0 := by
      intro hzero
      rw [hzero, enumEntities_zero] at henum
      cases henum
    by_cases hwanted : wanted e
    · simp only [if_pos hwanted] at h
      cases h
    · simp only [if_neg hwanted, Sum.inr.injEq] at h
      obtain ⟨he, hid⟩ := mem_of_enumEntities henum
      refine ⟨⟨by omega, fun k hlo hhi hk => ?_⟩, hne, h.symm⟩
      by_cases hkn : k = n
      · exact ⟨e, he, (hid (hkn ▸ hhi)).trans hkn.symm, hwanted⟩
      · exact hpassed k hlo hhi (by omega)

/-- The search finds something exactly if a wanted entity can be arrived at. -/
theorem enumRound_stops {found : Option Entity} (hn : Passed wanted d n)
    (h : enumRound wanted d n = .inl found) : found.isSome ↔ Reached wanted d := by
  obtain ⟨hlt, hpassed⟩ := hn
  unfold enumRound at h
  cases henum : enumEntities d n with
  | none =>
    rw [henum] at h
    obtain rfl := Sum.inl.inj h
    constructor
    · intro hsome
      cases hsome
    · intro ⟨e, he, hwanted, hbelow⟩
      have hpos := d.one_le_id e he
      have hle := d.id_lt e he
      by_cases hpass : e.id < n ∨ n = 0
      · obtain ⟨e', he', hid, hnot⟩ := hpassed e.id hpos hle hpass
        exact absurd (eq_of_id_eq he' he hid ▸ hwanted) hnot
      · have hexists : ∃ e' ∈ d.entities, e'.id = n := by
          by_cases heq : e.id = n
          · exact ⟨e, he, heq⟩
          · exact hbelow n (by omega) (by omega)
        obtain ⟨e', he', hid⟩ := hexists
        exact absurd (hid ▸ henum) (enumEntities_ne_none he')
  | some e =>
    rw [henum] at h
    by_cases hwanted : wanted e
    · simp only [if_pos hwanted, Sum.inl.injEq] at h
      subst h
      obtain ⟨he, hid⟩ := mem_of_enumEntities henum
      have hle := d.id_lt e he
      have hpos := d.one_le_id e he
      constructor
      · intro _
        refine ⟨e, he, hwanted, fun k hk hlo => ?_⟩
        obtain ⟨e', he', hid', -⟩ := hpassed k hlo (by omega) (by omega)
        exact ⟨e', he', hid'⟩
      · intro _
        rfl
    · simp only [if_neg hwanted] at h
      cases h

theorem isSome_of_scan {rounds : ℕ} {found : Option Entity}
    (h : scan wanted rounds d = some found) : found.isSome ↔ Reached wanted d :=
  of_leaves (Passed wanted d) (fun _ _ hs hround => (enumRound_goes_on hs hround).1)
    (fun _ _ hs hround => enumRound_stops hs hround) (passed_one wanted d) ⟨rounds, h⟩

/-- The counter of 32 bits bounds the search. -/
theorem exists_scan (wanted : Entity → Prop) [DecidablePred wanted] (d : Device) :
    ∃ found, scan wanted (2 ^ 32) d = some found := by
  apply exists_iterate_of_measure (Passed wanted d) fun n => if n = 0 then 0 else 2 ^ 32 - n
  · intro n m hn hround
    obtain ⟨hm, hne, heq⟩ := enumRound_goes_on hn hround
    have hlt := hn.1
    refine ⟨hm, ?_⟩
    rw [if_neg hne]
    split
    · omega
    · omega
  · exact passed_one wanted d
  · decide

end Enum

theorem exists_subdevLoop (devices : List Device) (subdev : Option Entity) :
    ∃ found, subdevLoop (2 ^ 32) devices subdev = some found := by
  induction devices generalizing subdev with
  | nil => exact ⟨subdev, rfl⟩
  | cons d devices ih =>
    obtain ⟨found, hfound⟩ := exists_scan IsSensorInit d
    cases hinfo : d.info with
    | none => exact ⟨subdev, by simp only [subdevLoop, hinfo]⟩
    | some model =>
      by_cases hmodel : model ≠ msmConfigurationName
      · obtain ⟨r, hr⟩ := ih subdev
        exact ⟨r, by simp only [subdevLoop, hinfo, if_pos hmodel, hr]⟩
      · obtain ⟨r, hr⟩ := ih (found.or subdev)
        exact ⟨r, by simp only [subdevLoop, hinfo, if_neg hmodel, hfound, hr]⟩

theorem countP_cons_of_isSeen {d : Device} (h : IsSeen d) (devices : List Device) :
    (d :: devices).countP (fun d => IsSeen d) = devices.countP (fun d => IsSeen d) + 1 :=
  List.countP_cons_of_pos (decide_eq_true h)

theorem countP_cons_of_not_isSeen {d : Device} (h : ¬ IsSeen d) (devices : List Device) :
    (d :: devices).countP (fun d => IsSeen d) = devices.countP fun d => IsSeen d :=
  List.countP_cons_of_neg fun hd => h (of_decide_eq_true hd)

/-- The second loop adds up the cameras it sees until the maximum is reached. -/
theorem cameraLoop_spec {rounds : ℕ} {devices : List Device} {numCameras r : ℕ}
    (hinfo : ∀ d ∈ devices, d.info ≠ none) (hlt : numCameras < 5)
    (h : cameraLoop rounds devices numCameras = some r) :
    r = min 5 (numCameras + devices.countP fun d => IsSeen d) := by
  induction devices generalizing numCameras with
  | nil =>
    have hr := Option.some.inj h
    rw [List.countP_nil]
    omega
  | cons d devices ih =>
    have hrest : ∀ d ∈ devices, d.info ≠ none := fun d hd => hinfo d (List.mem_cons_of_mem _ hd)
    cases hd : d.info with
    | none => exact absurd hd (hinfo d List.mem_cons_self)
    | some model =>
      simp only [cameraLoop, hd] at h
      split at h
      · rename_i hmodel
        have hnot : ¬ IsSeen d := fun hseen => hmodel (Option.some.inj (hd.symm.trans hseen.1))
        rw [countP_cons_of_not_isSeen hnot]
        exact ih hrest hlt h
      · rename_i hmodel
        cases hscan : scan IsCameraNode rounds d with
        | none =>
          rw [hscan] at h
          cases h
        | some found =>
          have hmodel' : d.info = some msmCameraName := hd.trans (congrArg some (not_not.mp hmodel))
          have hseen : found.isSome ↔ IsSeen d := by
            rw [isSome_of_scan hscan, IsSeen, and_iff_right hmodel']
          simp only [hscan] at h
          by_cases hfound : found.isSome
          · rw [countP_cons_of_isSeen (hseen.mp hfound)]
            simp only [if_pos hfound, mmCameraMaxNumSensors] at h
            split at h
            · have hr := Option.some.inj h
              omega
            · have hr := ih hrest (show numCameras + 1 < 5 by omega) h
              omega
          · rw [countP_cons_of_not_isSeen fun hd => hfound (hseen.mpr hd)]
            simp only [if_neg hfound, mmCameraMaxNumSensors] at h
            split at h
            · omega
            · exact ih hrest hlt h

theorem exists_cameraLoop (devices : List Device) (numCameras : ℕ) :
    ∃ r, cameraLoop (2 ^ 32) devices numCameras = some r := by
  induction devices generalizing numCameras with
  | nil => exact ⟨numCameras, rfl⟩
  | cons d devices ih =>
    obtain ⟨found, hfound⟩ := exists_scan IsCameraNode d
    cases hinfo : d.info with
    | none => exact ⟨0, by simp only [cameraLoop, hinfo]⟩
    | some model =>
      simp only [cameraLoop, hinfo, hfound]
      split
      · exact ih numCameras
      · generalize (if found.isSome then numCameras + 1 else numCameras) = counted
        split
        · exact ⟨counted, rfl⟩
        · exact ih counted

/-- The program reports the cameras it sees, up to the maximum. -/
theorem reports_iff {devices : List Device} (hinfo : ∀ d ∈ devices, d.info ≠ none) (n : ℕ) :
    Reports devices n ↔ n = min 5 (devices.countP fun d => IsSeen d) := by
  have hspec : ∀ rounds r, cameraLoop rounds devices 0 = some r →
      r = min 5 (devices.countP fun d => IsSeen d) := by
    intro rounds r h
    have hr := cameraLoop_spec hinfo (show 0 < 5 by omega) h
    rwa [Nat.zero_add] at hr
  constructor
  · intro ⟨rounds, subdev, h⟩
    unfold main at h
    split at h
    · rename_i hcamera
      obtain rfl := (Prod.mk.inj (Option.some.inj h)).2
      exact hspec rounds _ hcamera
    · cases h
  · intro hn
    obtain ⟨subdev, hsubdev⟩ := exists_subdevLoop devices none
    obtain ⟨r, hr⟩ := exists_cameraLoop devices 0
    refine ⟨2 ^ 32, subdev, ?_⟩
    rw [main, hsubdev, hr, hn, hspec _ r hr]

theorem isCamera_of_isSeen {d : Device} (h : IsSeen d) : IsCamera d := by
  obtain ⟨hinfo, e, he, hnode, -⟩ := h
  exact ⟨hinfo, e, he, hnode⟩

/-- As many cameras are seen as there are exactly if every camera is. -/
theorem countP_isSeen_le (devices : List Device) :
    devices.countP (fun d => IsSeen d) ≤ devices.countP fun d => IsCamera d :=
  List.countP_mono_left fun _ _ h => decide_eq_true (isCamera_of_isSeen (of_decide_eq_true h))

theorem countP_isSeen_eq_iff (devices : List Device) :
    (devices.countP fun d => IsSeen d) = (devices.countP fun d => IsCamera d) ↔
      ∀ d ∈ devices, IsCamera d → IsSeen d := by
  induction devices with
  | nil => simp
  | cons d devices ih =>
    have hle := countP_isSeen_le devices
    rw [List.countP_cons, List.countP_cons, List.forall_mem_cons, ← ih]
    by_cases hseen : IsSeen d
    · have hcamera := isCamera_of_isSeen hseen
      simp [hseen, hcamera]
    · by_cases hcamera : IsCamera d
      · simp [hseen, hcamera]
        omega
      · simp [hseen, hcamera]

/-- The count is exact exactly if five cameras are seen or every camera is. -/
theorem reports_exact_iff (devices : List Device) (hinfo : ∀ d ∈ devices, d.info ≠ none) :
    Reports devices (min 5 (devices.countP fun d => IsCamera d)) ↔
      5 ≤ devices.countP (fun d => IsSeen d) ∨ ∀ d ∈ devices, IsCamera d → IsSeen d := by
  have hle := countP_isSeen_le devices
  rw [reports_iff hinfo, ← countP_isSeen_eq_iff]
  omega

def camera (id : ℕ) (hlo : 1 ≤ id) (hhi : id < 2 ^ 31) : Device where
  info := some msmCameraName
  entities := [⟨id, 2 ^ 16 + 1, 2⟩]
  next _ := none
  one_le_id := by simpa using hlo
  id_lt := by simpa using hhi
  distinct := List.nodup_singleton _
  next_mem _ _ h := by cases h

def first : Device := camera 1 (by decide) (by decide)

def second : Device := camera 2 (by decide) (by decide)

theorem camera_info {devices : List Device} (h : ∀ d ∈ devices, d.info = some msmCameraName) :
    ∀ d ∈ devices, d.info ≠ none := by
  intro d hd
  rw [h d hd]
  exact Option.some_ne_none _

/-- Of seven cameras, one of which is not seen, five are reported; of two, one of which is
not seen, not both are. -/
theorem reports_capped :
    Reports [first, second, first, first, first, first, first] 5 ∧
      ¬ Reports [first, second] 2 := by
  constructor
  · exact (reports_exact_iff [first, second, first, first, first, first, first]
      (camera_info (by decide))).mpr (Or.inl (by decide))
  · intro h
    have hseen := (reports_exact_iff [first, second] (camera_info (by decide))).mp h
    exact absurd hseen (by decide)

/-- A camera whose only node has the id two is not counted. -/
theorem gap_hides_camera : ¬ ∀ devices : List Device, (∀ d ∈ devices, d.info ≠ none) →
    Reports devices (min 5 (devices.countP fun d => IsCamera d)) := by
  intro hall
  have hinfo : ∀ d ∈ [second], d.info ≠ none := camera_info (by decide)
  have hreports := (reports_iff hinfo _).mp (hall _ hinfo)
  exact absurd hreports (by decide)

end Fixed.CameraCount
