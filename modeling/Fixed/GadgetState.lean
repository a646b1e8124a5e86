import Fixed.FunctionOwnership
import Fixed.GadgetDepth

/-!
The gadgets of all devices at once. Each is up exactly while its device is enabled
and `ffs` is open, if `ffs` belongs to the device. The attribute files and the
callbacks keep this, as long as no device lists `ffs` twice and `ffs` is closed
only after it was opened.
-/
namespace Fixed.GadgetState

open AndroidDevice FunctionOwnership GadgetDepth

variable {ι : Type*}

/-- The device is enabled, and `ffs` is open if it belongs to the device. -/
def Up (s : Driver ι) (d : ι) : Prop :=
  (s.dev d).enabled = true ∧ (s.android_dev ffs = some d → s.ffsConfig.opened = true)

structure Accounted (p : Platform ι) (s : Driver ι) : Prop where
  owned : Owned p s
  live : ∀ d, s.android_dev ffs = some d → s.ffsConfig.enabled = (s.dev d).enabled
  unowned : s.android_dev ffs = none → s.ffsConfig.enabled = false
  gadget : ∀ d, Gadget (Up s d) (s.dev d)

variable [DecidableEq ι] {p : Platform ι} {s t : Driver ι} {d : ι}

omit [DecidableEq ι] in
theorem up_congr {e : ι} (henabled : (t.dev e).enabled = (s.dev e).enabled)
    (howner : t.android_dev = s.android_dev)
    (hopened : s.android_dev ffs = some e → t.ffsConfig.opened = s.ffsConfig.opened) :
    Up t e ↔ Up s e := by
  unfold Up
  rw [henabled, howner]
  constructor
  · intro ⟨hup, hopen⟩
    exact ⟨hup, fun hd => hopened hd ▸ hopen hd⟩
  · intro ⟨hup, hopen⟩
    exact ⟨hup, fun hd => (hopened hd).symm ▸ hopen hd⟩

omit [DecidableEq ι] in
theorem not_up_of_idle (hidle : (s.dev d).enabled = false) : ¬ Up s d := by
  intro ⟨hup, _⟩
  rw [hidle] at hup
  cases hup

theorem accounted_functions_store (h : Accounted p s) (d : ι) (buff : Text) :
    Accounted p (functions_store p d buff s).2 := by
  by_cases henabled : (s.dev d).enabled = true
  · rw [functions_store, if_pos henabled]
    exact h
  · have hidle : (s.dev d).enabled = false := by simpa using henabled
    have howned := owned_functions_store h.owned d buff
    revert howned
    rw [functions_store_idle hidle]
    generalize storeLists p d buff s = r
    intro howned
    generalize ht : (({ s with
      android_dev := r.1.android_dev
      rndis_transports := r.1.rndis_transports } : Driver ι).setDev d fun dev =>
        { dev with configs := r.2.2, configs_num := r.2.1 }) = t at howned
    have hself : t.dev d = { s.dev d with configs := r.2.2, configs_num := r.2.1 } := by
      rw [← ht, setDev_same]
    have hother : ∀ e, e ≠ d → t.dev e = s.dev e := by
      intro e he
      rw [← ht, setDev_of_ne _ he]
    have hffs : t.ffsConfig = s.ffsConfig := by rw [← ht]; rfl
    have howner : ∀ e, e ≠ d → (t.android_dev ffs = some e ↔ s.android_dev ffs = some e) := by
      intro e he
      rw [← howned.owner, ← h.owned.owner, hother e he]
    -- `ffs` is not enabled unless another device that is enabled has it
    have hoff : (∀ e, e ≠ d → t.android_dev ffs ≠ some e) → s.ffsConfig.enabled = false := by
      intro hnot
      cases hold : s.android_dev ffs with
      | none => exact h.unowned hold
      | some e =>
        by_cases he : e = d
        · rw [h.live e hold, he, hidle]
        · exact absurd ((howner e he).mpr hold) (hnot e he)
    have hdown : ¬ Up s d := not_up_of_idle hidle
    have hdown' : ¬ Up t d := not_up_of_idle (by rw [hself]; exact hidle)
    constructor
    · exact howned
    · intro e hd
      rw [hffs]
      by_cases he : e = d
      · subst he
        rw [hself, hoff]
        · exact hidle.symm
        · intro e' he' hd'
          exact he' (Option.some.inj (hd'.symm.trans hd))
      · rw [hother e he]
        exact h.live e ((howner e he).mp hd)
    · intro hnone
      rw [hffs]
      apply hoff
      intro e _ hd
      rw [hnone] at hd
      cases hd
    · intro e
      by_cases he : e = d
      · subst he
        obtain ⟨hdepth, hadded, hconnect⟩ := (h.gadget e).down hdown
        rw [hself]
        refine ⟨fun hup => absurd hup hdown', fun _ => ⟨hdepth, hadded, hconnect⟩, ?_, ?_⟩
        · simp [hadded]
        · simp [hconnect]
      · rw [hother e he]
        apply (h.gadget e).of_iff
        unfold Up
        rw [hother e he, howner e he, hffs]

omit [DecidableEq ι] in
theorem Accounted.not_listed (h : Accounted p s) {e : ι} (he : e ≠ d)
    (hd : s.android_dev ffs = some e) : ffs ∉ (s.dev d).listed := by
  intro hmem
  exact he (Option.some.inj (hd.symm.trans ((h.owned.owner ffs d).mp hmem)))

omit [DecidableEq ι] in
theorem Accounted.not_listed_of_none (h : Accounted p s) (hnone : s.android_dev ffs = none) :
    ffs ∉ (s.dev d).listed := by
  intro hmem
  rw [h.owned.owner, hnone] at hmem
  cases hmem

/-- The depth goes up once more for an `ffs` that is not open. -/
theorem gadget_enable (h : Accounted p s) (a : Answers) (hidle : (s.dev d).enabled = false)
    (honce : s.ffsConfig.opened = true ∨ (s.dev d).listed.count ffs ≤ 1) :
    Gadget (s.android_dev ffs = some d → s.ffsConfig.opened = true)
      ((android_enable p a d (raised s d (s.dev d).listed)).2.dev d) := by
  have hdown := (h.gadget d).of_iff (iff_of_false not_false (not_up_of_idle hidle))
  obtain ⟨hdepth, -, -⟩ := hdown.down not_false
  have hdev := raised_dev_self (s := s) (d := d) (s.dev d).listed
  by_cases hopen : s.ffsConfig.opened = true ∨ ffs ∉ (s.dev d).listed
  · have hzero : (if s.ffsConfig.opened = true then 0 else (s.dev d).listed.count ffs) = 0 := by
      rcases hopen with hopened | hnot
      · rw [if_pos hopened]
      · simp [List.count_eq_zero_of_not_mem hnot]
    rw [hzero, Nat.add_zero] at hdev
    have hsame : (raised s d (s.dev d).listed).dev d = s.dev d := hdev
    have henable := gadget_android_enable (p := p) (s := raised s d (s.dev d).listed) a
      (by rw [hsame]; exact hdown)
    apply henable.of_iff
    apply iff_of_true _ trivial
    intro hd
    exact hopen.resolve_right (not_not.mpr ((h.owned.owner ffs d).mpr hd))
  · obtain ⟨hclosed, hmem⟩ := not_or.mp hopen
    have hlisted := not_not.mp hmem
    have hcount : (s.dev d).listed.count ffs = 1 := by
      have hpos := List.count_pos_iff.mpr hlisted
      have hone := honce.resolve_left hclosed
      omega
    rw [if_neg hclosed, hcount, hdepth] at hdev
    rw [android_enable_of_lt a (by rw [hdev]; exact Nat.lt_succ_self 1)]
    rw [setDepth, setDev_same, hdev]
    have hkept : { s.dev d with disable_depth := 1 } = s.dev d := hdown.setDepth_one
    apply (hkept ▸ hdown).of_iff
    apply iff_of_false _ not_false
    intro hopened
    exact hclosed (hopened ((h.owned.owner ffs d).mp hlisted))

theorem accounted_enable (h : Accounted p s) (d : ι) {enabled : ℤ} (a : Answers)
    (hon : enabled ≠ 0 ∧ (s.dev d).enabled = false)
    (honce : s.ffsConfig.opened = true ∨ (s.dev d).listed.count ffs ≤ 1)
    (howned : Owned p (enable_store p d enabled a s)) :
    Accounted p (enable_store p d enabled a s) := by
  obtain ⟨hdepth, -, -⟩ := (h.gadget d).down (not_up_of_idle hon.2)
  have hlists := sameLists_enable_store (p := p) d enabled a s
  have hgadget := gadget_enable h a hon.2 honce
  revert howned hlists
  rw [enable_store, if_pos hon, foldl_enableFunction (fun hmem => (h.owned.owner ffs d).mp hmem)
    (show 0 < (s.dev d).disable_depth by omega)]
  dsimp only
  generalize ht : ((android_enable p a d (raised s d (s.dev d).listed)).2.setDev d fun dev =>
    { dev with enabled := true }) = t
  intro howned hlists
  have hother : ∀ e, e ≠ d → t.dev e = s.dev e := by
    intro e he
    rw [← ht, setDev_of_ne _ he, android_enable_dev_of_ne a he, raised_dev_of_ne _ he]
  have hself : t.dev d = { (android_enable p a d (raised s d (s.dev d).listed)).2.dev d with
      enabled := true } := by
    rw [← ht, setDev_same]
  have hffs : t.ffsConfig = ⟨s.ffsConfig.opened,
      s.ffsConfig.enabled || (s.dev d).listed.contains ffs⟩ := by
    rw [← ht]
    exact android_enable_ffsConfig a
  constructor
  · exact howned
  · intro e hd
    rw [hlists.android_dev] at hd
    by_cases he : e = d
    · subst he
      simp [hffs, hself, (h.owned.owner ffs e).mpr hd]
    · simp [hffs, h.not_listed he hd, hother e he, h.live e hd]
  · intro hnone
    rw [hlists.android_dev] at hnone
    simp [hffs, h.not_listed_of_none hnone, h.unowned hnone]
  · intro e
    by_cases he : e = d
    · subst he
      have hup : Up t e ↔ (s.android_dev ffs = some e → s.ffsConfig.opened = true) := by
        unfold Up
        rw [hself, hlists.android_dev, hffs]
        exact and_iff_right rfl
      have hgadget' := hgadget.of_iff hup
      rw [hself]
      exact ⟨hgadget'.up, hgadget'.down, hgadget'.added, hgadget'.connect⟩
    · rw [hother e he]
      apply (h.gadget e).of_iff
      apply up_congr
      · rw [hother e he]
      · exact hlists.android_dev
      · intro _
        rw [hffs]

/-- The device is down at depth 1, or at depth 2 if `ffs` is not open. -/
theorem gadget_disabled (h : Accounted p s) (hlive : (s.dev d).enabled = true)
    (honce : (s.dev d).listed.count ffs ≤ 1) :
    Gadget False { (android_disable p d s).dev d with disable_depth := 1 } ∧
      ((android_disable p d s).dev d).disable_depth =
        1 + if s.ffsConfig.opened then 0 else (s.dev d).listed.count ffs := by
  by_cases hopen : s.ffsConfig.opened = true ∨ ffs ∉ (s.dev d).listed
  · have hzero : (if s.ffsConfig.opened = true then 0 else (s.dev d).listed.count ffs) = 0 := by
      rcases hopen with hopened | hnot
      · rw [if_pos hopened]
      · simp [List.count_eq_zero_of_not_mem hnot]
    have hup : Up s d := by
      refine ⟨hlive, ?_⟩
      intro hd
      exact hopen.resolve_right (not_not.mpr ((h.owned.owner ffs d).mpr hd))
    have hdown := gadget_android_disable (p := p) ((h.gadget d).of_iff (iff_of_true trivial hup))
    obtain ⟨hdepth, -, -⟩ := hdown.down not_false
    rw [hzero, hdepth, hdown.setDepth_one]
    exact ⟨hdown, rfl⟩
  · obtain ⟨hclosed, hmem⟩ := not_or.mp hopen
    have hlisted := not_not.mp hmem
    have hcount : (s.dev d).listed.count ffs = 1 := by
      have hpos := List.count_pos_iff.mpr hlisted
      omega
    have hdown : Gadget False (s.dev d) := by
      apply (h.gadget d).of_iff
      apply iff_of_false not_false
      intro ⟨_, hopened⟩
      exact hclosed (hopened ((h.owned.owner ffs d).mp hlisted))
    obtain ⟨hdepth, -, -⟩ := hdown.down not_false
    have hkept : { s.dev d with disable_depth := 1 } = s.dev d := hdown.setDepth_one
    rw [if_neg hclosed, hcount, android_disable_of_pos (by omega), setDepth, setDev_same, hdepth]
    refine ⟨?_, rfl⟩
    dsimp only
    rw [hkept]
    exact hdown

/-- Disabling the functions then takes the depth back to 1. -/
theorem foldl_disableFunction_disabled (h : Accounted p s) (a : Answers)
    (hlive : (s.dev d).enabled = true) (honce : (s.dev d).listed.count ffs ≤ 1) :
    ((android_disable p d s).dev d).listed.foldl (disableFunction p a) (android_disable p d s) =
      lowered (android_disable p d s) d (s.dev d).listed := by
  have hlists := sameLists_android_disable (p := p) d s
  rw [hlists.listed]
  apply foldl_disableFunction
  · intro hmem
    rw [hlists.android_dev]
    exact (h.owned.owner ffs d).mp hmem
  · intro hclosed
    rw [android_disable_ffsConfig] at hclosed
    rw [(gadget_disabled h hlive honce).2, hclosed]
    simp

theorem accounted_disable (h : Accounted p s) (d : ι) {enabled : ℤ} (a : Answers)
    (hoff : enabled = 0 ∧ (s.dev d).enabled = true) (honce : (s.dev d).listed.count ffs ≤ 1)
    (howned : Owned p (enable_store p d enabled a s)) :
    Accounted p (enable_store p d enabled a s) := by
  obtain ⟨hgadget, hdepth⟩ := gadget_disabled h hoff.2 honce
  have hlists := sameLists_enable_store (p := p) d enabled a s
  have hopened := android_disable_ffsConfig (p := p) (d := d) (s := s)
  revert howned hlists
  rw [enable_store, if_neg (by simp [hoff.1]), if_pos hoff]
  dsimp only
  rw [foldl_disableFunction_disabled h a hoff.2 honce]
  generalize ht : ((lowered (android_disable p d s) d (s.dev d).listed).setDev d fun dev =>
    { dev with enabled := false }) = t
  intro howned hlists
  have hother : ∀ e, e ≠ d → t.dev e = s.dev e := by
    intro e he
    rw [← ht, setDev_of_ne _ he, lowered_dev_of_ne _ he, android_disable_dev_of_ne he]
  have hself : t.dev d = { (android_disable p d s).dev d with
      disable_depth := 1, enabled := false } := by
    rw [← ht, setDev_same, lowered_dev_self, hdepth, hopened, Nat.add_sub_cancel]
  have hffs : t.ffsConfig = ⟨s.ffsConfig.opened,
      s.ffsConfig.enabled && !(s.dev d).listed.contains ffs⟩ := by
    rw [← ht, ← hopened]
    rfl
  constructor
  · exact howned
  · intro e hd
    rw [hlists.android_dev] at hd
    by_cases he : e = d
    · subst he
      simp [hffs, hself, (h.owned.owner ffs e).mpr hd]
    · simp [hffs, h.not_listed he hd, hother e he, h.live e hd]
  · intro hnone
    rw [hlists.android_dev] at hnone
    simp [hffs, h.unowned hnone]
  · intro e
    by_cases he : e = d
    · subst he
      have hdown : ¬ Up t e := not_up_of_idle (by rw [hself])
      have hgadget' := hgadget.of_iff (iff_of_false hdown not_false)
      rw [hself]
      exact ⟨hgadget'.up, hgadget'.down, hgadget'.added, hgadget'.connect⟩
    · rw [hother e he]
      apply (h.gadget e).of_iff
      apply up_congr
      · rw [hother e he]
      · exact hlists.android_dev
      · intro _
        rw [hffs]

theorem accounted_enable_store (h : Accounted p s) (d : ι) (enabled : ℤ) (a : Answers)
    (honce : (s.dev d).listed.count ffs ≤ 1)
    (howned : Owned p (enable_store p d enabled a s)) :
    Accounted p (enable_store p d enabled a s) := by
  by_cases hon : enabled ≠ 0 ∧ (s.dev d).enabled = false
  · exact accounted_enable h d a hon (Or.inr honce) howned
  · by_cases hoff : enabled = 0 ∧ (s.dev d).enabled = true
    · exact accounted_disable h d a hoff honce howned
    · rw [enable_store, if_neg hon, if_neg hoff]
      exact h

omit [DecidableEq ι] in
/-- A step that leaves the lists and `enabled` alone, and what opens and closes `ffs`. -/
theorem Accounted.of_gadget (h : Accounted p s) (howned : Owned p t) (hlists : SameLists s t)
    (hffs : t.ffsConfig.enabled = s.ffsConfig.enabled)
    (henabled : ∀ e, (t.dev e).enabled = (s.dev e).enabled)
    (hgadget : ∀ e, Gadget (Up t e) (t.dev e)) : Accounted p t where
  owned := howned
  live e hd := by
    rw [hlists.android_dev] at hd
    rw [hffs, henabled]
    exact h.live e hd
  unowned hnone := by
    rw [hlists.android_dev] at hnone
    rw [hffs]
    exact h.unowned hnone
  gadget := hgadget

def setOpened (s : Driver ι) (opened : Bool) : Driver ι :=
  { s with ffsConfig := ⟨opened, s.ffsConfig.enabled⟩ }

theorem ready_eq (a : Answers) (hd : s.android_dev ffs = some d) :
    (functionfs_ready_callback p a s).2 =
      if s.ffsConfig.enabled then (android_enable p a d (setOpened s true)).2
      else setOpened s true := by
  simp only [functionfs_ready_callback, hd]
  rfl

theorem closed_eq (hd : s.android_dev ffs = some d) :
    functionfs_closed_callback p s =
      if s.ffsConfig.enabled then setOpened (android_disable p d s) false
      else setOpened s false := by
  simp only [functionfs_closed_callback, hd]
  split_ifs <;> rfl

omit [DecidableEq ι] in
/-- While `ffs` is not enabled it does not matter whether it is open. -/
theorem accounted_setOpened (h : Accounted p s) (hidle : s.ffsConfig.enabled = false)
    (opened : Bool) : Accounted p (setOpened s opened) := by
  have hlists : SameLists s (setOpened s opened) := sameLists_setFfsConfig s _
  apply h.of_gadget (h.owned.sameLists hlists rfl) hlists rfl fun _ => rfl
  intro e
  by_cases hd : s.android_dev ffs = some e
  · have henabled : (s.dev e).enabled = false := (h.live e hd).symm.trans hidle
    apply (h.gadget e).of_iff
    exact iff_of_false (not_up_of_idle henabled) (not_up_of_idle henabled)
  · apply (h.gadget e).of_iff
    apply up_congr (s := s) (t := setOpened s opened) rfl rfl
    intro hde
    exact absurd hde hd

/-- A step that opens or closes an enabled `ffs` and leaves the other devices alone. -/
theorem Accounted.of_ffs (h : Accounted p s) (hd : s.android_dev ffs = some d)
    (howned : Owned p t) (hlists : SameLists s t)
    (hffs : t.ffsConfig.enabled = s.ffsConfig.enabled)
    (henabled : ∀ e, (t.dev e).enabled = (s.dev e).enabled)
    (hother : ∀ e, e ≠ d → t.dev e = s.dev e) (hself : Gadget (Up t d) (t.dev d)) :
    Accounted p t := by
  apply h.of_gadget howned hlists hffs henabled
  intro e
  by_cases he : e = d
  · exact he ▸ hself
  · rw [hother e he]
    apply (h.gadget e).of_iff
    apply up_congr (henabled e) hlists.android_dev
    intro hde
    exact absurd (Option.some.inj (hde.symm.trans hd)) he

theorem accounted_ready (h : Accounted p s) (a : Answers)
    (howned : Owned p (functionfs_ready_callback p a s).2) :
    Accounted p (functionfs_ready_callback p a s).2 := by
  have hlists := sameLists_ready (p := p) a s
  revert howned hlists
  cases hd : s.android_dev ffs with
  | none =>
    intro _ _
    simp only [functionfs_ready_callback, hd]
    exact h
  | some d =>
    rw [ready_eq a hd]
    by_cases hon : s.ffsConfig.enabled = true
    · rw [if_pos hon]
      intro howned hlists
      have hconfig : (android_enable p a d (setOpened s true)).2.ffsConfig =
          ⟨true, s.ffsConfig.enabled⟩ := android_enable_ffsConfig a
      have hup : Up (android_enable p a d (setOpened s true)).2 d := by
        refine ⟨?_, fun _ => by rw [hconfig]⟩
        rw [android_enable_enabled]
        exact (h.live d hd).symm.trans hon
      apply h.of_ffs hd howned hlists
      · rw [hconfig]
      · exact android_enable_enabled a
      · exact fun e he => android_enable_dev_of_ne a he
      · by_cases hold : Up s d
        · -- `ffs` was open before
          have hzero : ((setOpened s true).dev d).disable_depth = 0 := (h.gadget d).up hold
          rw [android_enable_eq, if_pos hzero] at hup ⊢
          exact (h.gadget d).of_iff (iff_of_true hup hold)
        · have hdown : Gadget False ((setOpened s true).dev d) :=
            (h.gadget d).of_iff (iff_of_false not_false hold)
          exact (gadget_android_enable a hdown).of_iff (iff_of_true hup trivial)
    · rw [if_neg hon]
      intro _ _
      exact accounted_setOpened h (by simpa using hon) true

theorem accounted_closed (h : Accounted p s)
    (hopen : s.ffsConfig.enabled = true → s.ffsConfig.opened = true)
    (howned : Owned p (functionfs_closed_callback p s)) :
    Accounted p (functionfs_closed_callback p s) := by
  have hlists := sameLists_closed (p := p) s
  revert howned hlists
  cases hd : s.android_dev ffs with
  | none =>
    intro _ _
    simp only [functionfs_closed_callback, hd]
    exact accounted_setOpened h (h.unowned hd) false
  | some d =>
    rw [closed_eq hd]
    by_cases hon : s.ffsConfig.enabled = true
    · rw [if_pos hon]
      intro howned hlists
      have hup : Up s d := ⟨(h.live d hd).symm.trans hon, fun _ => hopen hon⟩
      have hdown : ¬ Up (setOpened (android_disable p d s) false) d := by
        intro ⟨_, hopened⟩
        have howner := (sameLists_android_disable (p := p) d s).android_dev
        exact absurd (hopened (by rw [← hd, ← howner]; rfl)) Bool.false_ne_true
      apply h.of_ffs hd howned hlists
      · show (android_disable p d s).ffsConfig.enabled = _
        rw [android_disable_ffsConfig]
      · exact android_disable_enabled
      · exact fun e he => android_disable_dev_of_ne he
      · have hgadget := gadget_android_disable (p := p)
          ((h.gadget d).of_iff (iff_of_true trivial hup))
        exact hgadget.of_iff (iff_of_false hdown not_false)
    · rw [if_neg hon]
      intro _ _
      exact accounted_setOpened h (by simpa using hon) false

/-- A step that touches only the connection of one gadget. -/
theorem accounted_connect (h : Accounted p s) (connect : Bool)
    (hup : connect = true → (s.dev d).disable_depth = 0 ∧
      (s.dev d).added = (s.dev d).configs.map Configuration.entry) :
    Accounted p (s.setDev d fun dev => { dev with connect := connect }) := by
  have hlists : SameLists s (s.setDev d fun dev => { dev with connect := connect }) := by
    apply (SameLists.refl s).setDev
    all_goals
      intro dev
      rfl
  have henabled : ∀ e, ((s.setDev d fun dev => { dev with connect := connect }).dev e).enabled =
      (s.dev e).enabled := by
    intro e
    rw [setDev_dev]
    split_ifs with he
    · rw [he]
    · rfl
  apply h.of_gadget (h.owned.sameLists hlists rfl) hlists rfl henabled
  intro e
  have hsame : Up (s.setDev d fun dev => { dev with connect := connect }) e ↔ Up s e :=
    up_congr (henabled e) rfl fun _ => rfl
  apply Gadget.of_iff _ hsame
  by_cases he : e = d
  · subst he
    rw [setDev_same]
    obtain ⟨hzero, hdown, hadded, hconnect⟩ := h.gadget e
    refine ⟨hzero, ?_, hadded, fun hset => (hup hset).2⟩
    intro hnot
    obtain ⟨hdepth, hnone, -⟩ := hdown hnot
    refine ⟨hdepth, hnone, ?_⟩
    by_contra hset
    have hlow := (hup (by simpa using hset)).1
    omega
  · rw [setDev_of_ne _ he]
    exact h.gadget e

theorem accounted_ffs_aliases_store (h : Accounted p s) (buf : Text) :
    Accounted p (ffs_aliases_store p buf s).2 := by
  have hlists := sameLists_ffs_aliases_store (p := p) buf s
  revert hlists
  unfold ffs_aliases_store
  split_ifs
  · exact fun _ => h
  · dsimp only
    intro hlists
    have henabled : ∀ e, ((s.setDev p.first fun dev => { dev with
        ffs_aliases := CString.strlcpy (CString.strim isspace (CString.strlcpy buf bufferSize))
          bufferSize }).dev e).enabled = (s.dev e).enabled := by
      intro e
      rw [setDev_dev]
      split_ifs with he
      · rw [he]
      · rfl
    apply h.of_gadget (h.owned.sameLists hlists rfl) hlists rfl henabled
    intro e
    apply Gadget.of_iff _ (up_congr (henabled e) rfl fun _ => rfl)
    rw [setDev_dev]
    split_ifs with he
    · subst he
      exact ⟨(h.gadget _).up, (h.gadget _).down, (h.gadget _).added, (h.gadget _).connect⟩
    · exact h.gadget e

theorem accounted_remote_wakeup_store (h : Accounted p s) (d : ι) (enable : ℤ)
    (howned : Owned p (remote_wakeup_store d enable s)) :
    Accounted p (remote_wakeup_store d enable s) := by
  have hdev : ∀ e, ((remote_wakeup_store d enable s).dev e).enabled = (s.dev e).enabled := by
    intro e
    rw [remote_wakeup_store, setDev_dev]
    split_ifs with he
    · rw [he]
    · rfl
  constructor
  · exact howned
  · intro e hd
    rw [hdev]
    exact h.live e hd
  · exact h.unowned
  · intro e
    apply Gadget.of_iff _ (up_congr (hdev e) rfl fun _ => rfl)
    rw [remote_wakeup_store, setDev_dev]
    split_ifs with he
    · subst he
      obtain ⟨hup, hdown, hadded, hconnect⟩ := h.gadget e
      have hentries : (s.dev e).configs.map (Configuration.entry ∘ fun conf =>
          { conf with wakeup := decide (enable ≠ 0) }) =
          (s.dev e).configs.map Configuration.entry := rfl
      constructor
      · exact hup
      · exact hdown
      · rw [List.map_map, hentries]
        exact hadded
      · rw [List.map_map, hentries]
        exact hconnect
    · exact h.gadget e

end Fixed.GadgetState
