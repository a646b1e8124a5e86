import Fixed.GadgetState

/-!
The disable depth of the devices over whole runs. As long as no device lists `ffs`
twice, `ffs` is closed only after it was opened, and the video device is opened
only on a gadget that is up, the depth of a device is 0 or 1 whenever no call is
running. It is 0 exactly while the device is enabled and `ffs`, if the device lists
it, is open. Only then does the composite driver have configurations of the device,
they are those that are listed, and only then is the gadget connected.
-/
namespace Fixed.DisableDepth

open AndroidDevice FunctionOwnership GadgetDepth GadgetState Runs

variable {ι : Type*}

def Once (s : Driver ι) : Prop := ∀ d, (s.dev d).listed.count ffs ≤ 1

/-- The condition on a step: `ffs` is listed at most once, closed only when it is
open, and the video device is opened only when all configurations are added. -/
def Orderly (s : Driver ι) : Event ι → Driver ι → Prop
  | .functions_store d _, t => (t.dev d).listed.count ffs ≤ 1
  | .functionfs_closed_callback, _ => s.ffsConfig.enabled = true → s.ffsConfig.opened = true
  | .video_ready_callback, _ => ∀ d, s.android_dev video = some d →
      (s.dev d).disable_depth = 0 ∧ (s.dev d).added = (s.dev d).configs.map Configuration.entry
  | _, _ => True

variable [DecidableEq ι] {p : Platform ι} {s t : Driver ι} {d : ι}

/-- What `functions_store` makes sure of holds of the lists of all devices. -/
theorem listed_step {P : List Text → Prop} {e : Event ι} (h : ∀ d, P (s.dev d).listed)
    (hstep : step p s e = some t)
    (hstored : ∀ d buff, e = .functions_store d buff → P (t.dev d).listed) (d : ι) :
    P (t.dev d).listed := by
  by_cases hstore : ∃ d buff, e = .functions_store d buff
  · obtain ⟨d', buff, rfl⟩ := hstore
    by_cases hd : d = d'
    · exact hd ▸ hstored d' buff rfl
    · unfold step at hstep
      split_ifs at hstep
      obtain rfl := Option.some.inj hstep
      show P ((functions_store p d' buff s).2.dev d).listed
      rw [functions_store_other hd]
      exact h d
  · by_cases hwakeup : ∃ d enable, e = .remote_wakeup_store d enable
    · obtain ⟨d', enable, rfl⟩ := hwakeup
      unfold step at hstep
      split_ifs at hstep
      obtain rfl := Option.some.inj hstep
      show P ((remote_wakeup_store d' enable s).dev d).listed
      rw [remote_wakeup_store_listed]
      exact h d
    · have hlists := sameLists_step hstep (fun d buff he => hstore ⟨d, buff, he⟩)
        fun d enable he => hwakeup ⟨d, enable, he⟩
      rw [hlists.listed]
      exact h d

theorem once_step {e : Event ι} (h : Once s) (hstep : step p s e = some t)
    (horderly : Orderly s e t) : Once t := by
  apply listed_step (P := fun fs => fs.count ffs ≤ 1) h hstep
  intro d buff he
  subst he
  exact horderly

theorem accounted_step (s : Driver ι) (e : Event ι) (t : Driver ι) (h : Accounted p s ∧ Once s)
    (hstep : step p s e = some t) (horderly : Orderly s e t) : Accounted p t ∧ Once t := by
  refine ⟨?_, once_step h.2 hstep horderly⟩
  obtain ⟨h, honce⟩ := h
  have howned := owned_step s e t h.owned hstep
  unfold step at hstep
  split_ifs at hstep
  obtain rfl := Option.some.inj hstep
  cases e with
  | functions_store d buff => exact accounted_functions_store h d buff
  | ffs_aliases_store buf => exact accounted_ffs_aliases_store h buf
  | enable_store d enabled a => exact accounted_enable_store h d enabled a (honce d) howned
  | remote_wakeup_store d enable => exact accounted_remote_wakeup_store h d enable howned
  | rndis_transports_store buf => exact ⟨howned, h.live, h.unowned, h.gadget⟩
  | functionfs_ready_callback a => exact accounted_ready h a howned
  | functionfs_closed_callback => exact accounted_closed h horderly howned
  | video_ready_callback =>
    show Accounted p (AndroidDevice.video_ready_callback s).2
    unfold AndroidDevice.video_ready_callback
    cases hd : s.android_dev video with
    | none => exact h
    | some d => exact accounted_connect h true fun _ => horderly d hd
  | video_closed_callback =>
    show Accounted p (AndroidDevice.video_closed_callback s).2
    unfold AndroidDevice.video_closed_callback
    cases s.android_dev video with
    | none => exact h
    | some d => exact accounted_connect h false fun hset => absurd hset Bool.false_ne_true

omit [DecidableEq ι] in
theorem accounted_initial (p : Platform ι) : Accounted p (initial : Driver ι) where
  owned := owned_initial p
  live d hd := rfl
  unowned _ := rfl
  gadget d := by
    constructor
    · intro hup
      exact absurd hup (not_up_of_idle rfl)
    · exact fun _ => ⟨rfl, rfl, rfl⟩
    · exact List.nil_prefix
    · exact fun hset => absurd hset Bool.false_ne_true

omit [DecidableEq ι] in
theorem once_initial : Once (initial : Driver ι) := fun _ => Nat.zero_le 1

theorem accounted_run {es : List (Event ι)} (horderly : AllSteps (step p) Orderly initial es)
    (hrun : exec (step p) initial es = some s) : Accounted p s ∧ Once s :=
  exec_invariant_of_allSteps (step p) (I := fun s => Accounted p s ∧ Once s) accounted_step
    ⟨accounted_initial p, once_initial⟩ horderly hrun

def session : List (Event Bool) :=
  [.functions_store false (rndis ++ ',' :: ffs), .enable_store false 1 .success,
    .functionfs_ready_callback .success]

theorem orderly_session : AllSteps (step twoDevices) Orderly initial session := by
  refine (allSteps_cons _ rfl).mpr ⟨?_, (allSteps_cons _ rfl).mpr ⟨trivial,
    (allSteps_cons _ rfl).mpr ⟨trivial, trivial⟩⟩⟩
  show List.count ffs [rndis, ffs] ≤ 1
  decide

/-- The depth of a device after a run of orderly steps. -/
theorem depth_accounted {es : List (Event ι)}
    (horderly : AllSteps (step p) Orderly initial es)
    (hrun : exec (step p) initial es = some s) (d : ι) :
    (s.dev d).disable_depth = if (s.dev d).enabled = true ∧
      (ffs ∈ (s.dev d).listed → s.ffsConfig.opened = true) then 0 else 1 := by
  have h := (accounted_run horderly hrun).1
  have hup : Up s d ↔ (s.dev d).enabled = true ∧
      (ffs ∈ (s.dev d).listed → s.ffsConfig.opened = true) := by
    rw [Up, h.owned.owner]
  split_ifs with hlive
  · exact (h.gadget d).up (hup.mpr hlive)
  · exact ((h.gadget d).down fun hlive' => hlive (hup.mp hlive')).1

theorem depth_accounted_session : ∃ s, exec (step twoDevices) initial session = some s ∧
    (s.dev false).disable_depth = 0 ∧ (s.dev true).disable_depth = 1 := by
  obtain ⟨s, hrun, hlive, hopened, hidle⟩ : ∃ s, exec (step twoDevices) initial session = some s ∧
      (s.dev false).enabled = true ∧ s.ffsConfig.opened = true ∧ (s.dev true).enabled = false :=
    ⟨_, rfl, rfl, rfl, rfl⟩
  refine ⟨s, hrun, ?_, ?_⟩
  · rw [depth_accounted orderly_session hrun, if_pos ⟨hlive, fun _ => hopened⟩]
  · rw [depth_accounted orderly_session hrun, if_neg (by simp [hidle])]

/-- What the composite driver has of a device after a run of orderly steps. -/
theorem added_live {es : List (Event ι)}
    (horderly : AllSteps (step p) Orderly initial es)
    (hrun : exec (step p) initial es = some s) (d : ι) :
    (s.dev d).added <+: (s.dev d).configs.map Configuration.entry ∧
      ((s.dev d).connect = true → (s.dev d).added = (s.dev d).configs.map Configuration.entry) ∧
      ((s.dev d).added ≠ [] ∨ (s.dev d).connect = true → (s.dev d).enabled = true ∧
        (ffs ∈ (s.dev d).listed → s.ffsConfig.opened = true)) := by
  have h := (accounted_run horderly hrun).1
  obtain ⟨-, hdown, hadded, hconnect⟩ := h.gadget d
  refine ⟨hadded, hconnect, ?_⟩
  intro hlive
  by_contra hnot
  obtain ⟨-, hnone, hoff⟩ := hdown (by rwa [Up, ← h.owned.owner])
  rcases hlive with hsome | hon
  · exact hsome hnone
  · rw [hoff] at hon
    cases hon

theorem added_live_session : ∃ s, exec (step twoDevices) initial session = some s ∧
    (s.dev false).connect = true ∧ (s.dev false).added = [(1, [rndis, ffs])] := by
  obtain ⟨s, hrun, hconnect, hconfigs⟩ : ∃ s, exec (step twoDevices) initial session = some s ∧
      (s.dev false).connect = true ∧ (s.dev false).configs = [⟨1, false, [rndis, ffs]⟩] :=
    ⟨_, rfl, rfl, rfl⟩
  refine ⟨s, hrun, hconnect, ?_⟩
  rw [(added_live orderly_session hrun false).2.1 hconnect, hconfigs]
  rfl

end Fixed.DisableDepth
