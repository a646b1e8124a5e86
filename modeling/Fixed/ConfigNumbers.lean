import Fixed.AndroidDevice
import Fixed.Runs
import Mathlib.Algebra.Ring.Nat
import Mathlib.Data.List.Nodup

/-!
The numbering of the configurations. In every run a device has at most 256 of
them, `configs_num` counts them and their values count from 1; so no two of them
share a value, and only the last of 256 has the value 0. A configuration that
`remote_wakeup` has not reached follows all those it has.
-/
namespace Fixed.ConfigNumbers

open AndroidDevice CString Runs

/-- What a configuration keeps while its functions are listed anew. -/
def header (conf : Configuration) : ℕ × Bool := (conf.bConfigurationValue, conf.wakeup)

structure Numbered (dev : AndroidDev) : Prop where
  count : dev.configs_num = dev.configs.length
  le_bufferSize : dev.configs.length ≤ bufferSize
  value : dev.configs.map Configuration.bConfigurationValue =
    (List.range dev.configs.length).map fun i => (i + 1) % 256
  wakeup : (dev.configs.map Configuration.wakeup).Pairwise fun a b => b = true → a = true

variable {ι : Type*} [DecidableEq ι] {p : Platform ι} {s t : Driver ι}

/-- What is left of the old list, and what is new behind it. -/
theorem listConfigs_header (d : ι) (ffs_aliases : Text) (b : List Text)
    (configs : List Configuration) (n : ℕ) (l : Listing ι) :
    (listConfigs p d ffs_aliases b configs n l).2.2.map header =
      (configs.map header).take b.length ++
        (List.range (b.length - configs.length)).map fun j => ((n + 1 + j) % 256, false) := by
  induction b generalizing configs n l with
  | nil => simp [listConfigs]
  | cons conf_str b ih =>
    cases configs with
    | nil =>
      simp only [listConfigs, List.map_cons, ih, List.map_nil, List.take_nil, List.nil_append,
        List.length_nil, Nat.sub_zero, List.length_cons, List.range_succ_eq_map, List.map_map]
      refine congrArg₂ List.cons rfl (List.map_congr_left ?_)
      intro j _
      simp only [Function.comp_apply, Nat.succ_eq_add_one, Nat.add_assoc, Nat.add_comm 1 j]
    | cons conf configs =>
      simp only [listConfigs, List.map_cons, ih, List.length_cons, List.take_succ_cons,
        List.cons_append, Nat.add_sub_add_right]
      rfl

theorem listConfigs_count (d : ι) (ffs_aliases : Text) (b : List Text)
    (configs : List Configuration) (i n : ℕ) (l : Listing ι) (h : n = i + configs.length) :
    (listConfigs p d ffs_aliases b configs n l).2.1 = i + b.length := by
  induction b generalizing configs i n l with
  | nil =>
    show n - configs.length = i + 0
    omega
  | cons conf_str b ih =>
    cases configs with
    | nil =>
      simp only [listConfigs, List.length_nil] at h ⊢
      rw [ih [] (i + 1) (n + 1) _ (by simp [h]), List.length_cons]
      omega
    | cons conf configs =>
      simp only [listConfigs, List.length_cons] at h ⊢
      rw [ih configs (i + 1) n _ (by omega)]
      omega

/-- The text of at most 255 characters has at most 256 fields. -/
theorem length_confs_le (buff : Text) :
    (fields (strim isspace (strlcpy buff bufferSize)) ':').length ≤ bufferSize := by
  rw [length_fields]
  have hcount := List.count_le_length (a := ':') (l := strim isspace (strlcpy buff bufferSize))
  have htrim := (strim_sublist isspace (strlcpy buff bufferSize)).length_le
  have hcopy := length_strlcpy_lt buff (show 0 < bufferSize by decide)
  omega

/-- Counting on from where the list of old numbers ends. -/
theorem count_on (f : ℕ → ℕ) (k m : ℕ) :
    ((List.range m).map f).take k ++ (List.range (k - m)).map (fun j => f (m + j)) =
      (List.range k).map f := by
  rcases Nat.le_total k m with hle | hle
  · rw [Nat.sub_eq_zero_of_le hle, List.range_zero, List.map_nil, List.append_nil,
      ← List.map_take, List.take_range, Nat.min_eq_left hle]
  · obtain ⟨j, rfl⟩ := Nat.exists_eq_add_of_le hle
    rw [List.take_of_length_le (by simp), Nat.add_sub_cancel_left, List.range_add, List.map_append,
      List.map_map]
    rfl

theorem numbered_of_header {dev : AndroidDev} (h : Numbered dev) {k n : ℕ}
    {configs : List Configuration} (hk : k ≤ bufferSize) (hn : n = k)
    (hconfigs : configs.map header = (dev.configs.map header).take k ++
      (List.range (k - dev.configs.length)).map fun j => ((dev.configs_num + 1 + j) % 256, false)) :
    Numbered { dev with configs := configs, configs_num := n } := by
  have hlength : configs.length = k := by
    have hlen := congrArg List.length hconfigs
    simp only [List.length_map, List.length_append, List.length_take, List.length_range] at hlen
    omega
  have hvalue := congrArg (List.map Prod.fst) hconfigs
  have hwakeup := congrArg (List.map Prod.snd) hconfigs
  simp only [List.map_append, List.map_take, List.map_map, Function.comp_def, header]
    at hvalue hwakeup
  constructor
  · exact hn.trans hlength.symm
  · exact hlength.symm ▸ hk
  · show configs.map (fun conf => conf.bConfigurationValue) = (List.range configs.length).map _
    have hold : dev.configs.map (fun conf => conf.bConfigurationValue) =
      (List.range dev.configs.length).map fun i => (i + 1) % 256 := h.value
    rw [hvalue, hold, hlength, h.count]
    have hshift : ∀ j, dev.configs.length + 1 + j = dev.configs.length + j + 1 := by omega
    simp only [hshift]
    exact count_on (fun i => (i + 1) % 256) k dev.configs.length
  · show (configs.map fun conf => conf.wakeup).Pairwise _
    rw [hwakeup]
    apply List.pairwise_append.mpr
    refine ⟨h.wakeup.sublist (List.take_sublist k _), ?_, ?_⟩
    · apply List.pairwise_map.mpr
      exact List.pairwise_of_forall fun _ _ hfalse => hfalse
    · intro a _ b hb htrue
      obtain ⟨j, -, hj⟩ := List.mem_map.mp hb
      exact absurd (hj.trans htrue) (by simp)

/-- A device lists anew. -/
theorem numbered_functions_store (h : ∀ d, Numbered (s.dev d)) (d : ι) (buff : Text) (e : ι) :
    Numbered ((functions_store p d buff s).2.dev e) := by
  by_cases henabled : (s.dev d).enabled = true
  · rw [functions_store, if_pos henabled]
    exact h e
  · rw [functions_store_idle (by simpa using henabled), setDev_dev]
    split_ifs with he
    · apply numbered_of_header (h d) (length_confs_le buff)
      · rw [storeLists, listConfigs_count d _ _ _ 0 _ _ (by rw [(h d).count, Nat.zero_add]),
          Nat.zero_add]
      · exact listConfigs_header d _ _ _ _ _
    · exact h e

theorem numbered_remote_wakeup_store (h : ∀ d, Numbered (s.dev d)) (d : ι) (enable : ℤ) (e : ι) :
    Numbered ((remote_wakeup_store d enable s).dev e) := by
  unfold remote_wakeup_store
  rw [setDev_dev]
  split_ifs with he
  · obtain ⟨hcount, hle, hvalue, -⟩ := h d
    constructor
    · simpa using hcount
    · simpa using hle
    · simpa [Function.comp_def] using hvalue
    · apply List.pairwise_map.mpr
      apply List.pairwise_map.mpr
      exact List.pairwise_of_forall fun _ _ hset => hset
  · exact h e

omit [DecidableEq ι] in
theorem Numbered.of_sameLists (h : ∀ d, Numbered (s.dev d)) (hlists : SameLists s t) (d : ι) :
    Numbered (t.dev d) := by
  obtain ⟨hcount, hle, hvalue, hwakeup⟩ := h d
  constructor
  · rw [hlists.configs_num, hlists.configs, hcount]
  · rw [hlists.configs]
    exact hle
  · rw [hlists.configs]
    exact hvalue
  · rw [hlists.configs]
    exact hwakeup

theorem numbered_step (s : Driver ι) (e : Event ι) (t : Driver ι)
    (h : ∀ d, Numbered (s.dev d)) (hstep : step p s e = some t) (d : ι) :
    Numbered (t.dev d) := by
  by_cases hstore : ∃ d buff, e = .functions_store d buff
  · obtain ⟨d', buff, rfl⟩ := hstore
    unfold step at hstep
    split_ifs at hstep
    obtain rfl := Option.some.inj hstep
    exact numbered_functions_store h d' buff d
  · by_cases hwakeup : ∃ d enable, e = .remote_wakeup_store d enable
    · obtain ⟨d', enable, rfl⟩ := hwakeup
      unfold step at hstep
      split_ifs at hstep
      obtain rfl := Option.some.inj hstep
      exact numbered_remote_wakeup_store h d' enable d
    · exact .of_sameLists h (sameLists_step hstep (fun d buff he => hstore ⟨d, buff, he⟩)
        fun d enable he => hwakeup ⟨d, enable, he⟩) d

theorem numbered_initial : Numbered AndroidDev.initial := by
  constructor <;> simp [AndroidDev.initial]

/-- The numbers of at most 256 configurations differ. -/
theorem Numbered.nodup {dev : AndroidDev} (h : Numbered dev) :
    (dev.configs.map Configuration.bConfigurationValue).Nodup := by
  rw [h.value]
  apply List.Nodup.map_on _ List.nodup_range
  intro i hi j hj hij
  have hle := h.le_bufferSize
  have hi' := List.mem_range.mp hi
  have hj' := List.mem_range.mp hj
  simp only [bufferSize] at hle
  omega

/-- In every run the configurations of a device are numbered from 1, without a
repetition, and if `remote_wakeup` reads 0 none of them can wake the host. -/
theorem configs_numbered {es : List (Event ι)} (hrun : exec (step p) initial es = some s) (d : ι) :
    (s.dev d).configs_num = (s.dev d).configs.length ∧ (s.dev d).configs_num ≤ 256 ∧
      (∀ i conf, (s.dev d).configs[i]? = some conf → conf.bConfigurationValue = (i + 1) % 256) ∧
      ((s.dev d).configs.map Configuration.bConfigurationValue).Nodup ∧
      (remote_wakeup_show d s = some false → ∀ conf ∈ (s.dev d).configs, conf.wakeup = false) := by
  have h := exec_invariant (step p) (I := fun s => ∀ d, Numbered (s.dev d))
    (fun s e t => numbered_step s e t) (fun _ => numbered_initial) hrun d
  refine ⟨h.count, h.count.symm ▸ h.le_bufferSize, ?_, h.nodup, ?_⟩
  · intro i conf hi
    have hvalue := congrArg (fun l => l[i]?) h.value
    have hlt : i < (s.dev d).configs.length := (List.getElem?_eq_some_iff.mp hi).1
    rw [List.getElem?_map, List.getElem?_map, hi, List.getElem?_range hlt] at hvalue
    exact Option.some.inj hvalue
  · intro hshow conf hconf
    have hwakeup := h.wakeup
    unfold remote_wakeup_show at hshow
    split_ifs at hshow
    cases hconfigs : (s.dev d).configs with
    | nil =>
      rw [hconfigs] at hconf
      cases hconf
    | cons first rest =>
      rw [hconfigs] at hshow hconf hwakeup
      have hfirst : first.wakeup = false := Option.some.inj hshow
      rcases List.mem_cons.mp hconf with rfl | hrest
      · exact hfirst
      · have hback := List.rel_of_pairwise_cons hwakeup (List.mem_map_of_mem hrest)
        by_contra hset
        simp [hback (by simpa using hset)] at hfirst

def oneThenTwo : List (Event Bool) :=
  [.functions_store false rndis, .remote_wakeup_store false 1,
    .functions_store false (rndis ++ ':' :: ffs)]

theorem configs_numbered_oneThenTwo : ∃ s, exec (step twoDevices) initial oneThenTwo = some s ∧
    (s.dev false).configs = [⟨1, true, [rndis]⟩, ⟨2, false, [ffs]⟩] ∧
    ((s.dev false).configs.map Configuration.bConfigurationValue).Nodup := by
  obtain ⟨s, hrun, hconfigs⟩ : ∃ s, exec (step twoDevices) initial oneThenTwo = some s ∧
    (s.dev false).configs = [⟨1, true, [rndis]⟩, ⟨2, false, [ffs]⟩] := ⟨_, rfl, rfl⟩
  exact ⟨s, hrun, hconfigs, (configs_numbered hrun false).2.2.2.1⟩

end Fixed.ConfigNumbers
