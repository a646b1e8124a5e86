import Fixed.ConfigNumbers
import Fixed.FunctionOwnership

/-!
The text of the attribute file `functions`. What `functions_store` has listed is
what `functions_show` prints, and what `functions_show` prints can be stored
again without any effect on the devices, as long as no configuration is empty, no
name that is listed is an alias of `ffs`, and the text fits the buffer. Only the blanks
at the end of `rndis_transports` are cut off where `rndis` is listed.
-/
namespace Fixed.FunctionsRoundTrip

open AndroidDevice ConfigNumbers CString FunctionOwnership Runs

structure IsName (f : Text) : Prop where
  ne_nil : f ≠ []
  plain : ∀ c ∈ f, c ≠ ',' ∧ c ≠ ':' ∧ isspace c = false

def text (lists : List (List Text)) : Text := [':'].intercalate (lists.map ([','].intercalate ·))

/-- The name stands for the supported function of that name, which is free. -/
structure Plain {ι : Type*} (p : Platform ι) (d : ι) (ffs_aliases rndis_transports : Text)
    (o : Text → Option ι) (f : Text) : Prop where
  supported : f ∈ p.functions d
  free : o f = none ∨ o f = some d
  not_alias : f ∉ fields ffs_aliases ','
  not_rndis : ¬ (f = rndis ∧ strim isspace rndis_transports = BAM2BAM_IPA)

section Text

variable {lists : List (List Text)} {names : List Text}

theorem fields_names (hne : names ≠ []) (h : ∀ f ∈ names, IsName f) :
    fields ([','].intercalate names) ',' = names := by
  apply fields_intercalate ',' hne
  intro f hf hcomma
  exact ((h f hf).plain ',' hcomma).1 rfl

theorem fields_text (hne : lists ≠ []) (h : ∀ names ∈ lists, ∀ f ∈ names, IsName f) :
    fields (text lists) ':' = lists.map ([','].intercalate ·) := by
  apply fields_intercalate ':' (by simpa using hne)
  intro l hl hcolon
  obtain ⟨names, hnames, rfl⟩ := List.mem_map.mp hl
  rcases mem_intercalate hcolon with heq | ⟨f, hf, hmem⟩
  · exact absurd heq (by decide)
  · exact ((h names hnames f hf).plain ':' hmem).2.1 rfl

theorem text_not_blank (h : ∀ names ∈ lists, ∀ f ∈ names, IsName f) :
    ∀ c ∈ text lists, isspace c = false := by
  intro c hc
  rcases mem_intercalate hc with rfl | ⟨l, hl, hmem⟩
  · decide
  · obtain ⟨names, hnames, rfl⟩ := List.mem_map.mp hl
    rcases mem_intercalate hmem with rfl | ⟨f, hf, hcf⟩
    · decide
    · exact ((h names hnames f hf).plain c hcf).2.2

theorem intercalate_ne_nil {x : Char} {l : Text} {ls : List Text} (hl : l ≠ []) :
    [x].intercalate (l :: ls) ≠ [] := by
  cases ls with
  | nil => simpa using hl
  | cons l' ls => simp [List.intercalate_cons_cons]

theorem text_ne_nil (hne : lists ≠ []) (hlists : ∀ names ∈ lists, names ≠ [])
    (h : ∀ names ∈ lists, ∀ f ∈ names, IsName f) : text lists ≠ [] := by
  cases lists with
  | nil => exact absurd rfl hne
  | cons names lists =>
    apply intercalate_ne_nil
    cases names with
    | nil => exact absurd rfl (hlists [] List.mem_cons_self)
    | cons f names => exact intercalate_ne_nil (h _ List.mem_cons_self f List.mem_cons_self).ne_nil

theorem flatMap_comma (hne : names ≠ []) :
    (names.flatMap fun name => name ++ [',']) = [','].intercalate names ++ [','] := by
  induction names with
  | nil => exact absurd rfl hne
  | cons f names ih =>
    cases names with
    | nil => simp
    | cons g names =>
      rw [List.flatMap_cons, ih (by simp), List.intercalate_cons_cons]
      simp

/-- The loop from some text on. -/
theorem functions_show_loop_append (configs : List Configuration) (before : Text)
    (hconfigs : ∀ conf ∈ configs, conf.enabled_functions ≠ []) (hne : configs ≠ []) :
    functions_show_loop configs (before ++ [',']) =
      before ++ ':' :: (text (configs.map Configuration.enabled_functions) ++ [',']) := by
  induction configs generalizing before with
  | nil => exact absurd rfl hne
  | cons conf configs ih =>
    have hfunctions := flatMap_comma (hconfigs conf List.mem_cons_self)
    unfold functions_show_loop
    rw [if_neg (by simp), List.dropLast_concat, hfunctions]
    cases configs with
    | nil => simp [functions_show_loop, text]
    | cons conf' configs =>
      have hih := ih (before ++ [':'] ++ [','].intercalate conf.enabled_functions)
        (fun c hc => hconfigs c (List.mem_cons_of_mem conf hc)) (by simp)
      rw [← List.append_assoc, hih]
      simp [text, List.intercalate_cons_cons]

/-- What `functions_show` prints. -/
theorem functions_show_eq {ι : Type*} {d : ι} {s : Driver ι} (hne : (s.dev d).configs ≠ [])
    (hconfigs : ∀ conf ∈ (s.dev d).configs, conf.enabled_functions ≠ []) :
    functions_show d s =
      text ((s.dev d).configs.map Configuration.enabled_functions) ++ ['\n'] := by
  have hloop : functions_show_loop (s.dev d).configs [] =
      text ((s.dev d).configs.map Configuration.enabled_functions) ++ [','] := by
    cases hlist : (s.dev d).configs with
    | nil => exact absurd hlist hne
    | cons conf configs =>
      rw [hlist] at hconfigs
      unfold functions_show_loop
      rw [if_pos rfl, List.nil_append, flatMap_comma (hconfigs conf List.mem_cons_self)]
      cases configs with
      | nil => simp [functions_show_loop, text]
      | cons conf' configs =>
        rw [functions_show_loop_append _ _
          (fun c hc => hconfigs c (List.mem_cons_of_mem conf hc)) (by simp)]
        simp [text, List.intercalate_cons_cons]
  unfold functions_show
  dsimp only
  rw [hloop, if_neg (by simp), List.dropLast_concat]

end Text

section Listing

variable {ι : Type*} [DecidableEq ι] {p : Platform ι} {d : ι} {ffs_aliases : Text}

def trimmed (rndis_transports : Text) (names : List Text) : Text :=
  if names.contains rndis then strimBuffer isspace rndis_transports else rndis_transports

theorem strim_trimmed (rndis_transports : Text) (names : List Text) :
    strim isspace (trimmed rndis_transports names) = strim isspace rndis_transports := by
  unfold trimmed
  split_ifs
  · exact strim_strimBuffer isspace rndis_transports
  · rfl

theorem trimmed_append (rndis_transports : Text) (names names' : List Text) :
    trimmed (trimmed rndis_transports names) names' =
      trimmed rndis_transports (names ++ names') := by
  unfold trimmed
  by_cases hmem : rndis ∈ names
  · simp [hmem, strimBuffer_idem]
  · simp [hmem]

def add (d : ι) (l : Listing ι) (f : Text) : Listing ι :=
  { l with
    android_dev := Function.update l.android_dev f (some d)
    rndis_transports := trimmed l.rndis_transports [f]
    enabled_functions := l.enabled_functions ++ [f] }

theorem android_enable_function_of_free {f : Text} {functions : List Text} {l : Listing ι}
    (hmem : f ∈ functions) (hfree : l.android_dev f = none ∨ l.android_dev f = some d) :
    android_enable_function d f functions l = (0, { l with
      android_dev := Function.update l.android_dev f (some d)
      enabled_functions := l.enabled_functions ++ [f] }) := by
  induction functions with
  | nil => cases hmem
  | cons g functions ih =>
    unfold android_enable_function
    by_cases hg : f = g
    · subst hg
      rw [if_pos rfl, if_neg]
      intro hother
      exact hfree.elim hother.1 hother.2
    · rw [if_neg hg]
      exact ih ((List.mem_cons.mp hmem).resolve_left hg)

theorem listName_plain {l : Listing ι} {f : Text}
    (h : Plain p d ffs_aliases l.rndis_transports l.android_dev f) :
    listName p d ffs_aliases l f = add d l f := by
  unfold listName
  rw [if_neg h.not_alias]
  dsimp only
  rw [if_neg h.not_rndis, android_enable_function_of_free h.supported (by exact h.free)]
  simp only [add, trimmed, List.contains_iff_mem, List.mem_singleton, @eq_comm _ rndis]

omit [DecidableEq ι] in
theorem Plain.add {l : Listing ι} {f g : Text}
    (h : Plain p d ffs_aliases l.rndis_transports l.android_dev f) :
    Plain p d ffs_aliases (add d l g).rndis_transports (add d l g).android_dev f := by
  refine ⟨h.supported, ?_, h.not_alias, ?_⟩
  · by_cases hfg : f = g
    · exact Or.inr (by rw [hfg]; exact Function.update_self g (some d) l.android_dev)
    · rw [show (FunctionsRoundTrip.add d l g).android_dev f = l.android_dev f from
        Function.update_of_ne hfg _ _]
      exact h.free
  · show ¬ (f = rndis ∧ strim isspace (trimmed l.rndis_transports [g]) = BAM2BAM_IPA)
    rw [strim_trimmed]
    exact h.not_rndis

theorem foldl_listName_plain {names : List Text} {l : Listing ι}
    (h : ∀ f ∈ names, Plain p d ffs_aliases l.rndis_transports l.android_dev f) :
    (names.foldl (listName p d ffs_aliases) l).enabled_functions = l.enabled_functions ++ names ∧
      (names.foldl (listName p d ffs_aliases) l).rndis_transports =
        trimmed l.rndis_transports names ∧
      ∀ f, Plain p d ffs_aliases l.rndis_transports l.android_dev f →
        Plain p d ffs_aliases (names.foldl (listName p d ffs_aliases) l).rndis_transports
          (names.foldl (listName p d ffs_aliases) l).android_dev f := by
  induction names generalizing l with
  | nil => exact ⟨(List.append_nil _).symm, rfl, fun f hf => hf⟩
  | cons f names ih =>
    rw [List.foldl_cons, listName_plain (h f List.mem_cons_self)]
    obtain ⟨hfunctions, htransports, hplain⟩ := ih (l := add d l f)
      fun g hg => (h g (List.mem_cons_of_mem f hg)).add
    refine ⟨?_, ?_, fun g hg => hplain g hg.add⟩
    · rw [hfunctions]
      simp [add]
    · rw [htransports]
      exact trimmed_append l.rndis_transports [f] names

/-- Names that stand for free functions are listed as they are. -/
theorem listConfigs_plain {lists : List (List Text)} (configs : List Configuration) (n : ℕ)
    {l : Listing ι} (hlists : ∀ names ∈ lists, names ≠ [])
    (hnames : ∀ names ∈ lists, ∀ f ∈ names, IsName f)
    (h : ∀ names ∈ lists, ∀ f ∈ names,
      Plain p d ffs_aliases l.rndis_transports l.android_dev f) :
    (listConfigs p d ffs_aliases (lists.map ([','].intercalate ·)) configs n l).2.2.map
        Configuration.enabled_functions = lists ∧
      (listConfigs p d ffs_aliases (lists.map ([','].intercalate ·))
        configs n l).1.rndis_transports = trimmed l.rndis_transports lists.flatten := by
  induction lists generalizing configs n l with
  | nil => exact ⟨rfl, rfl⟩
  | cons names lists ih =>
    have hfold := foldl_listName_plain (l := { l with enabled_functions := [] })
      (h names List.mem_cons_self)
    have hfields := fields_names (hlists names List.mem_cons_self)
      (hnames names List.mem_cons_self)
    have hrest := fun (configs : List Configuration) (n : ℕ) => ih configs n
      (l := names.foldl (listName p d ffs_aliases) { l with enabled_functions := [] })
      (fun names' hnames' => hlists names' (List.mem_cons_of_mem names hnames'))
      (fun names' hnames' => hnames names' (List.mem_cons_of_mem names hnames'))
      fun names' hnames' f hf =>
        hfold.2.2 f (h names' (List.mem_cons_of_mem names hnames') f hf)
    have htransports : trimmed (names.foldl (listName p d ffs_aliases)
        { l with enabled_functions := [] }).rndis_transports lists.flatten =
        trimmed l.rndis_transports (names :: lists).flatten := by
      rw [hfold.2.1, trimmed_append, List.flatten_cons]
    cases configs with
    | nil =>
      refine ⟨?_, ?_⟩
      · simp only [List.map_cons, listConfigs, hfields, (hrest _ _).1, hfold.1, List.nil_append]
      · simp only [List.map_cons, listConfigs, hfields, (hrest _ _).2, htransports]
    | cons conf configs =>
      refine ⟨?_, ?_⟩
      · simp only [List.map_cons, listConfigs, hfields, (hrest _ _).1, hfold.1, List.nil_append]
      · simp only [List.map_cons, listConfigs, hfields, (hrest _ _).2, htransports]

end Listing

section Store

variable {ι : Type*} [DecidableEq ι] {p : Platform ι} {d : ι} {s : Driver ι}
  {lists : List (List Text)}

theorem fields_stored (hne : lists ≠ []) (hlists : ∀ names ∈ lists, names ≠ [])
    (hnames : ∀ names ∈ lists, ∀ f ∈ names, IsName f)
    (hfits : (text lists ++ ['\n']).length < bufferSize) :
    fields (strim isspace (strlcpy (text lists ++ ['\n']) bufferSize)) ':' =
      lists.map ([','].intercalate ·) := by
  rw [strlcpy_of_length_lt hfits, strim_append_blank isspace (text_not_blank hnames)
    (text_ne_nil hne hlists hnames) (by decide), fields_text hne hnames]

theorem store_lists (hidle : (s.dev d).enabled = false) (hne : lists ≠ [])
    (hlists : ∀ names ∈ lists, names ≠ []) (hnames : ∀ names ∈ lists, ∀ f ∈ names, IsName f)
    (hplain : ∀ names ∈ lists, ∀ f ∈ names,
      Plain p d (s.dev d).ffs_aliases s.rndis_transports s.android_dev f)
    (hfits : (text lists ++ ['\n']).length < bufferSize) :
    ((functions_store p d (text lists ++ ['\n']) s).2.dev d).configs.map
        Configuration.enabled_functions = lists ∧
      (functions_store p d (text lists ++ ['\n']) s).2.rndis_transports =
        trimmed s.rndis_transports lists.flatten := by
  have hcleared : ∀ names ∈ lists, ∀ f ∈ names,
      Plain p d (s.dev d).ffs_aliases s.rndis_transports (clearFunctions s d) f := by
    intro names hmem f hf
    obtain ⟨hsupported, hfree, halias, hrndis⟩ := hplain names hmem f hf
    refine ⟨hsupported, ?_, halias, hrndis⟩
    rw [clearFunctions_apply]
    split_ifs
    · exact Or.inl rfl
    · exact hfree
  have hstored := listConfigs_plain (p := p) (d := d) (s.dev d).configs (s.dev d).configs_num
    (l := ⟨clearFunctions s d, s.rndis_transports, false, []⟩) hlists hnames hcleared
  rw [functions_store_idle hidle, setDev_same]
  show (storeLists p d (text lists ++ ['\n']) s).2.2.map Configuration.enabled_functions = lists ∧
    (storeLists p d (text lists ++ ['\n']) s).1.rndis_transports = _
  rw [storeLists, fields_stored hne hlists hnames hfits]
  exact hstored

theorem isName_of_all {f : Text} (hne : f ≠ [])
    (h : f.all (fun c => c ≠ ',' && c ≠ ':' && !isspace c) = true) : IsName f := by
  refine ⟨hne, ?_⟩
  intro c hc
  have hplain := List.all_eq_true.mp h c hc
  simp only [Bool.and_eq_true, decide_eq_true_eq, Bool.not_eq_true'] at hplain
  exact ⟨hplain.1.1, hplain.1.2, hplain.2⟩

theorem isName_twoDevices : ∀ f ∈ twoDevices.functions false, IsName f := by
  intro f hf
  have hmem : f = ffs ∨ f = rndis ∨ f = rndis_qc := by simpa [twoDevices] using hf
  rcases hmem with rfl | rfl | rfl
  · exact isName_of_all (by decide) (by decide)
  · exact isName_of_all (by decide) (by decide)
  · exact isName_of_all (by decide) (by decide)

/-- What is stored is shown. -/
theorem functions_show_store (hidle : (s.dev d).enabled = false) (hne : lists ≠ [])
    (hlists : ∀ names ∈ lists, names ≠ []) (hnames : ∀ names ∈ lists, ∀ f ∈ names, IsName f)
    (hplain : ∀ names ∈ lists, ∀ f ∈ names,
      Plain p d (s.dev d).ffs_aliases s.rndis_transports s.android_dev f)
    (hfits : (text lists ++ ['\n']).length < bufferSize) :
    functions_show d (functions_store p d (text lists ++ ['\n']) s).2 = text lists ++ ['\n'] := by
  have hstored := (store_lists hidle hne hlists hnames hplain hfits).1
  rw [functions_show_eq, hstored]
  · intro hnil
    rw [hnil] at hstored
    exact hne hstored.symm
  · intro conf hconf
    apply hlists
    rw [← hstored]
    exact List.mem_map_of_mem hconf

theorem functions_show_store_initial :
    functions_show false (functions_store twoDevices false
      (text [[rndis, ffs], [rndis_qc]] ++ ['\n']) initial).2 =
        rndis ++ [','] ++ ffs ++ [':'] ++ rndis_qc ++ ['\n'] := by
  apply functions_show_store rfl (by decide) (by decide)
  · intro names hnames f hf
    have hmem : f ∈ [ffs, rndis, rndis_qc] := by
      revert names f
      decide
    exact isName_twoDevices f hmem
  · intro names hnames f hf
    have hmem : f ∈ [ffs, rndis, rndis_qc] ∧ f ∉ fields [] ',' := by
      revert names f
      decide
    exact ⟨hmem.1, Or.inl rfl, hmem.2, fun ⟨_, htransport⟩ => absurd htransport (by decide)⟩
  · decide

omit [DecidableEq ι] in
theorem owned_ext {t : Driver ι} (hs : Owned p s) (ht : Owned p t)
    (h : ∀ d, (t.dev d).listed = (s.dev d).listed) : t.android_dev = s.android_dev := by
  funext f
  apply Option.ext
  intro d
  rw [← ht.owner, ← hs.owner, h]

theorem configs_ext {configs configs' : List Configuration}
    (hheader : configs'.map header = configs.map header)
    (hfunctions : configs'.map Configuration.enabled_functions =
      configs.map Configuration.enabled_functions) : configs' = configs := by
  induction configs generalizing configs' with
  | nil => simpa using hheader
  | cons conf configs ih =>
    cases configs' with
    | nil => simp at hheader
    | cons conf' configs' =>
      simp only [List.map_cons, List.cons.injEq] at hheader hfunctions
      obtain ⟨value, wakeup, functions⟩ := conf
      obtain ⟨value', wakeup', functions'⟩ := conf'
      obtain ⟨⟨rfl, rfl⟩, hrest⟩ := And.imp_left Prod.mk.inj hheader
      obtain ⟨rfl, hrest'⟩ := hfunctions
      rw [ih hrest hrest']

/-- What is shown can be stored again, which changes nothing on the devices. -/
theorem functions_store_show {es : List (Event ι)} (hrun : exec (step p) initial es = some s)
    (hidle : (s.dev d).enabled = false) (hne : (s.dev d).configs ≠ [])
    (hconfigs : ∀ conf ∈ (s.dev d).configs, conf.enabled_functions ≠ [])
    (hnames : ∀ f ∈ p.functions d, IsName f)
    (halias : ∀ f ∈ (s.dev d).listed, f ∉ fields (s.dev d).ffs_aliases ',')
    (hrndis : rndis ∈ (s.dev d).listed → strim isspace s.rndis_transports ≠ BAM2BAM_IPA)
    (hfits : (functions_show d s).length < bufferSize) :
    functions_store p d (functions_show d s) s = (↑(functions_show d s).length, { s with
      rndis_transports := trimmed s.rndis_transports (s.dev d).listed }) := by
  have howned := exec_invariant (step p) owned_step (owned_initial p) hrun
  have hnumbered := exec_invariant (step p) (I := fun s => ∀ d, Numbered (s.dev d))
    (fun s e t => numbered_step s e t) (fun _ => numbered_initial) hrun d
  have hlists : ∀ names ∈ (s.dev d).configs.map Configuration.enabled_functions, names ≠ [] := by
    intro names hmem
    obtain ⟨conf, hconf, rfl⟩ := List.mem_map.mp hmem
    exact hconfigs conf hconf
  have hlisted : ∀ names ∈ (s.dev d).configs.map Configuration.enabled_functions,
      ∀ f ∈ names, f ∈ (s.dev d).listed := by
    intro names hmem f hf
    obtain ⟨conf, hconf, rfl⟩ := List.mem_map.mp hmem
    exact List.mem_flatMap.mpr ⟨conf, hconf, hf⟩
  have hshow := functions_show_eq hne hconfigs
  rw [hshow] at hfits ⊢
  have hnames' : ∀ names ∈ (s.dev d).configs.map Configuration.enabled_functions,
      ∀ f ∈ names, IsName f := fun names hmem f hf =>
    hnames f (howned.supported f d (hlisted names hmem f hf))
  have hne' : (s.dev d).configs.map Configuration.enabled_functions ≠ [] := by simpa using hne
  obtain ⟨hstored, htransports⟩ := store_lists hidle hne' hlists hnames' (p := p)
    (fun names hmem f hf => ⟨howned.supported f d (hlisted names hmem f hf),
      Or.inr ((howned.owner f d).mp (hlisted names hmem f hf)),
      halias f (hlisted names hmem f hf),
      fun ⟨heq, htransport⟩ => hrndis (heq ▸ hlisted names hmem f hf) htransport⟩) hfits
  have hfields := fields_stored hne' hlists hnames' hfits
  have howned' := owned_functions_store howned d
    (text ((s.dev d).configs.map Configuration.enabled_functions) ++ ['\n'])
  revert hstored htransports howned'
  rw [functions_store_idle hidle, setDev_same]
  intro hstored htransports howned'
  replace htransports : (storeLists p d (text ((s.dev d).configs.map
      Configuration.enabled_functions) ++ ['\n']) s).1.rndis_transports =
      trimmed s.rndis_transports (s.dev d).listed := by
    rw [AndroidDev.listed, List.flatMap]
    exact htransports
  have hcount : (storeLists p d (text ((s.dev d).configs.map Configuration.enabled_functions) ++
      ['\n']) s).2.1 = (s.dev d).configs_num := by
    rw [storeLists, hfields, listConfigs_count d _ _ _ 0 _ _
      (by rw [hnumbered.count, Nat.zero_add]), hnumbered.count]
    simp
  have hsame : (storeLists p d (text ((s.dev d).configs.map Configuration.enabled_functions) ++
      ['\n']) s).2.2 = (s.dev d).configs := by
    apply configs_ext _ hstored
    rw [storeLists, hfields, listConfigs_header]
    simp
  rw [hcount, hsame, htransports] at howned' ⊢
  have hdev : ∀ o : Text → Option ι, (({ s with
      android_dev := o
      rndis_transports := trimmed s.rndis_transports (s.dev d).listed } : Driver ι).setDev d
        fun dev =>
          { dev with configs := (s.dev d).configs, configs_num := (s.dev d).configs_num }) =
      { s with
        android_dev := o
        rndis_transports := trimmed s.rndis_transports (s.dev d).listed } := by
    intro o
    unfold Driver.setDev
    rw [Function.update_eq_self]
  rw [hdev] at howned' ⊢
  have howner := owned_ext howned howned' fun _ => rfl
  dsimp only at howner
  rw [howner]

def aliased : List (Event Bool) :=
  [.ffs_aliases_store ['a', 'd', 'b', '\n'],
    .functions_store false (rndis ++ [',', 'a', 'd', 'b', ':'] ++ rndis_qc ++ ['\n']),
    .rndis_transports_store ['B', 'A', 'M', '\n']]

theorem functions_store_show_aliased : ∃ s, exec (step twoDevices) initial aliased = some s ∧
    functions_show false s = rndis ++ [','] ++ ffs ++ [':'] ++ rndis_qc ++ ['\n'] ∧
    functions_store twoDevices false (functions_show false s) s =
      (↑(functions_show false s).length, { s with rndis_transports := ['B', 'A', 'M'] }) := by
  obtain ⟨s, hrun, hshow, hidle, hconfigs, hlisted, haliases, htransports⟩ :
      ∃ s, exec (step twoDevices) initial aliased = some s ∧
        functions_show false s = rndis ++ [','] ++ ffs ++ [':'] ++ rndis_qc ++ ['\n'] ∧
        (s.dev false).enabled = false ∧
        (s.dev false).configs = [⟨1, false, [rndis, ffs]⟩, ⟨2, false, [rndis_qc]⟩] ∧
        (s.dev false).listed = [rndis, ffs, rndis_qc] ∧
        (s.dev false).ffs_aliases = ['a', 'd', 'b'] ∧ s.rndis_transports = ['B', 'A', 'M', '\n'] :=
    ⟨_, rfl, rfl, rfl, rfl, rfl, rfl, rfl⟩
  have hcut : trimmed s.rndis_transports (s.dev false).listed = ['B', 'A', 'M'] := by
    rw [htransports, hlisted]
    decide
  refine ⟨s, hrun, hshow, ?_⟩
  rw [← hcut]
  refine functions_store_show hrun hidle ?_ ?_ ?_ ?_ ?_ ?_
  · simp [hconfigs]
  · simp [hconfigs]
  · exact isName_twoDevices
  · rw [hlisted, haliases]
    decide
  · intro _
    rw [htransports]
    decide
  · rw [hshow]
    decide

end Store

end Fixed.FunctionsRoundTrip
