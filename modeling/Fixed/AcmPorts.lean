import Fixed.AndroidDevice
import Fixed.PortPairs
import Fixed.Runs

/-!
The `acm` function over whole runs of the gadget driver. Only the first bind of all
opens the ports and takes their references, whether it succeeds or not, and the
references it takes are never put again: the clean-up finds no instance that is on.
From the first bind on it is settled what later binds do. If it took all references,
they add the functions of the ports until the configuration record is freed;
otherwise, and after that, they add what is not there.
-/
namespace Fixed.AcmPorts

open CString ObjectLedger PortPairs Runs

def MAX_ACM_INSTANCES : ℕ := 4

def transportsSize : ℕ := 32

structure Answers extends CoreAnswers where
  acm_init_port : ℕ → List Char → ℤ
  acm_port_setup : ℤ

structure Acm extends Ports where
  acm_transports : List Char
  acm_initialized : Bool
  ports : ℕ
  /-- `config` of the function is not null. -/
  config : Bool
  bound : Bool

def acm_transports_store (s : Acm) (buff : List Char) : Acm :=
  { s with acm_transports := strlcpy buff transportsSize }

def acm_function_init (s : Acm) (kzalloc : Bool) : Acm :=
  if kzalloc then
    { s with config := true, instances_on := 0, func := fun _ => .null, inst := fun _ => .null }
  else s

def bind_config (s : Acm) (a : Answers) : ℤ × Acm :=
  let (err, p) := add_ports a.toCoreAnswers s.toPorts 0 s.ports
  if p.crashed then (err, { s with toPorts := p })
  else if err ≠ 0 then (err, { s with toPorts := { p with instances_on := 0 } })
  else (0, { s with toPorts := p })

def out (s : Acm) (err : ℤ) : ℤ × Acm :=
  (err, { s with toPorts := { s.toPorts with instances_on := 0 } })

def acm_function_bind_config (s : Acm) (a : Answers) : ℤ × Acm :=
  if s.acm_initialized then bind_config s a
  else
    let names := fields (strim AndroidDevice.isspace (strlcpy s.acm_transports transportsSize)) ','
    let (ports, err) := init_ports MAX_ACM_INSTANCES a.acm_init_port s.ports names
    let s := { s with acm_initialized := true, ports := ports }
    match err with
    | some err => out s err
    | none =>
      if a.acm_port_setup ≠ 0 then out s a.acm_port_setup
      else
        let (err, p) := get_ports MAX_ACM_INSTANCES a.toCoreAnswers s.toPorts 0 s.ports
        let s := { s with toPorts := p }
        if p.crashed then (err, s)
        else if err ≠ 0 then out s err
        else bind_config { s with toPorts := { p with instances_on := s.ports } } a

def acm_function_unbind_config (s : Acm) : Acm :=
  { s with toPorts := { s.toPorts with instances_on := 0 } }

def acm_function_cleanup (s : Acm) : Acm :=
  { s with toPorts := put_ports MAX_ACM_INSTANCES s.toPorts 0 s.instances_on, config := false }

def android_bind_enabled_function (s : Acm) (a : Answers) : Acm :=
  let (ret, s) := acm_function_bind_config s a
  if s.crashed then s else { s with bound := ret = 0 }

/-- The composite driver drops the functions of a configuration before
`android_unbind_enabled_functions`. -/
def android_unbind_enabled_function (s : Acm) : Acm :=
  let s := { s with added := [] }
  { (if s.bound then acm_function_unbind_config s else s) with bound := false }

inductive Event
  | transports_store (buff : List Char)
  | init (kzalloc : Bool)
  | bind (a : Answers)
  | unbind
  | cleanup

/-- The gadget driver initialises the function, binds and unbinds it in turn, and cleans
up when it is unbound. A crash ends a run. -/
def step (s : Acm) (e : Event) : Option Acm :=
  if s.crashed then none
  else
    match e with
    | .transports_store buff => some (acm_transports_store s buff)
    | .init kzalloc => if s.config then none else some (acm_function_init s kzalloc)
    | .bind a => if s.config ∧ ¬ s.bound then some (android_bind_enabled_function s a) else none
    | .unbind => if s.config then some (android_unbind_enabled_function s) else none
    | .cleanup => if s.config ∧ ¬ s.bound then some (acm_function_cleanup s) else none

def initial : Acm where
  instances_on := 0
  func _ := .null
  inst _ := .null
  functions := .empty
  instances := .empty
  added := []
  crashed := false
  acm_transports := []
  acm_initialized := false
  ports := 0
  config := false
  bound := false

def names (s : Acm) : List (List Char) :=
  fields (strim AndroidDevice.isspace (strlcpy s.acm_transports transportsSize)) ','

def opening (s : Acm) (a : Answers) : ℕ × Option ℤ :=
  init_ports MAX_ACM_INSTANCES a.acm_init_port 0 (names s)

def Serves (s : Acm) (a : Answers) : Prop :=
  (opening s a).2 = none ∧ a.acm_port_setup = 0 ∧ a.Gives 0 (opening s a).1

def Rebinds (es : List Event) : Prop :=
  ∃ fs a gs, es = fs ++ .bind a :: gs ∧ .cleanup ∈ fs

structure Unopened (s : Acm) : Prop where
  initialized : s.acm_initialized = false
  ports : s.ports = 0
  crashed : s.crashed = false
  bound : s.bound = false
  added : s.added = []
  instances_on : s.instances_on = 0
  functions : s.functions = .empty
  instances : s.instances = .empty

structure Live (functions instances : Ledger) (refs : Finset ℕ) : Prop where
  functions_live : functions.live = refs
  instances_live : instances.live = refs
  functions_faults : functions.faults = 0
  instances_faults : instances.faults = 0

structure Holds (s : Acm) (n : ℕ) : Prop where
  initialized : s.acm_initialized = true
  ports : s.ports = n
  pos : 0 < n
  config : s.config = true
  crashed : s.crashed = false
  func : ∀ j < n, s.func j = .obj j
  live : Live s.functions s.instances (Finset.Ico 0 n)

/-- The functions of the ports are in the configuration when the function is bound. -/
structure Serving (s : Acm) (n : ℕ) : Prop extends Holds s n where
  added : s.added = if s.bound then List.range' 0 n else []
  instances_on : s.bound = false → s.instances_on = 0

/-- `n` ports are counted, but their functions are not in the arrays. -/
structure Spent (s : Acm) (n : ℕ) (refs : Finset ℕ) : Prop where
  initialized : s.acm_initialized = true
  ports : s.ports = n
  crashed : s.crashed = false
  lost : s.config = true → ∀ j < n, ∀ k, s.func j = .obj k → k ∉ refs
  live : Live s.functions s.instances refs
  added : s.added = []
  instances_on : s.instances_on = 0

theorem unopened_initial : Unopened initial := ⟨rfl, rfl, rfl, rfl, rfl, rfl, rfl, rfl⟩

theorem not_crashed {s t : Acm} {e : Event} (h : step s e = some t) : s.crashed = false := by
  cases hc : s.crashed with
  | false => rfl
  | true => simp [step, hc] at h

/-- What a step may be. -/
theorem step_cases {s t : Acm} {e : Event} (h : step s e = some t) :
    (∃ buff, e = .transports_store buff ∧ t = acm_transports_store s buff) ∨
    (∃ ok, e = .init ok ∧ s.config = false ∧ t = acm_function_init s ok) ∨
    (∃ a, e = .bind a ∧ s.config = true ∧ s.bound = false ∧
      t = android_bind_enabled_function s a) ∨
    (e = .unbind ∧ t = android_unbind_enabled_function s) ∨
    (e = .cleanup ∧ s.bound = false ∧ t = acm_function_cleanup s) := by
  have hc := not_crashed h
  simp only [step, hc, Bool.false_eq_true, if_false] at h
  cases e with
  | transports_store buff => exact Or.inl ⟨buff, rfl, (Option.some.inj h).symm⟩
  | init ok =>
    dsimp only at h
    split at h
    · exact absurd h (by simp)
    · rename_i hconfig
      exact Or.inr (Or.inl ⟨ok, rfl, by simpa using hconfig, (Option.some.inj h).symm⟩)
  | bind a =>
    dsimp only at h
    split at h
    · rename_i hguard
      exact Or.inr (Or.inr (Or.inl
        ⟨a, rfl, hguard.1, by simpa using hguard.2, (Option.some.inj h).symm⟩))
    · exact absurd h (by simp)
  | unbind =>
    dsimp only at h
    split at h
    · exact Or.inr (Or.inr (Or.inr (Or.inl ⟨rfl, (Option.some.inj h).symm⟩)))
    · exact absurd h (by simp)
  | cleanup =>
    dsimp only at h
    split at h
    · rename_i hguard
      exact Or.inr (Or.inr (Or.inr (Or.inr
        ⟨rfl, by simpa using hguard.2, (Option.some.inj h).symm⟩)))
    · exact absurd h (by simp)

/-- Without an instance that is on, the clean-up puts nothing. -/
theorem cleanup_eq {s : Acm} (h : s.instances_on = 0) :
    acm_function_cleanup s = { s with config := false } := by
  rw [acm_function_cleanup, h, put_ports]

/-- Nothing but a bind opens the ports. -/
theorem unopened_step {s t : Acm} {e : Event} (hs : Unopened s) (he : ∀ a, e ≠ .bind a)
    (h : step s e = some t) : Unopened t := by
  obtain ⟨hinit, hports, hcrashed, hbound, hadded, hon, hfunctions, hinstances⟩ := hs
  rcases step_cases h with ⟨buff, -, rfl⟩ | ⟨ok, -, -, rfl⟩ | ⟨a, rfl, -⟩ | ⟨-, rfl⟩ | ⟨-, -, rfl⟩
  · exact ⟨hinit, hports, hcrashed, hbound, hadded, hon, hfunctions, hinstances⟩
  · cases ok with
    | true => exact ⟨hinit, hports, hcrashed, hbound, hadded, rfl, hfunctions, hinstances⟩
    | false => exact ⟨hinit, hports, hcrashed, hbound, hadded, hon, hfunctions, hinstances⟩
  · exact absurd rfl (he a)
  · rw [android_unbind_enabled_function, hbound]
    exact ⟨hinit, hports, hcrashed, rfl, rfl, hon, hfunctions, hinstances⟩
  · rw [cleanup_eq hon]
    exact ⟨hinit, hports, hcrashed, hbound, hadded, hon, hfunctions, hinstances⟩

/-- A bind that comes to the label `bind_config` with the references held. -/
theorem serving_bind {s u : Acm} {n : ℕ} {a : Answers} (hu : Holds u n) (hadded : u.added = [])
    (hbind : acm_function_bind_config s a = bind_config u a) :
    Serving (android_bind_enabled_function s a) n := by
  obtain ⟨hinit, hports, hpos, hconfig, hcrashed, hfunc, hlive⟩ := hu
  have hall : ∀ j < 0 + n, u.func j = .obj (0 + j) ∧ 0 + j ∈ u.functions.live := by
    intro j hj
    rw [Nat.zero_add] at hj ⊢
    exact ⟨hfunc j hj, by rw [hlive.functions_live, Finset.mem_Ico]; omega⟩
  obtain ⟨err, -, heq⟩ := add_ports_live (a := a.toCoreAnswers) hall hadded hcrashed
  rw [Nat.zero_add] at heq
  have hret : bind_config u a = (err, { u with
      added := if err = 0 then List.range' 0 n else []
      instances_on := if err = 0 then u.instances_on else 0 }) := by
    unfold bind_config
    rw [hports, heq]
    by_cases he : err = 0
    · simp [he, hcrashed]
    · simp [he, hcrashed]
  unfold android_bind_enabled_function
  rw [hbind, hret]
  simp only [hcrashed, Bool.false_eq_true, if_false]
  refine ⟨⟨hinit, hports, hpos, hconfig, rfl, hfunc, hlive⟩, ?_, ?_⟩
  · by_cases he : err = 0 <;> simp [he]
  · intro hb
    have he : err ≠ 0 := by simpa using hb
    exact if_neg he

/-- What a step makes of held references. -/
theorem serving_step {s t : Acm} {n : ℕ} {e : Event} (hs : Serving s n) (h : step s e = some t) :
    e ≠ .cleanup ∧ Serving t n ∨
      e = .cleanup ∧ t.bound = false ∧ Spent t n (Finset.Ico 0 n) := by
  rcases step_cases h with ⟨buff, rfl, rfl⟩ | ⟨ok, rfl, hconfig, rfl⟩ | ⟨a, rfl, -, hb, rfl⟩ |
    ⟨rfl, rfl⟩ | ⟨rfl, hb, rfl⟩
  · obtain ⟨⟨hinit, hports, hpos, hconfig, hcrashed, hfunc, hlive⟩, hadded, hon⟩ := hs
    exact Or.inl ⟨nofun, ⟨hinit, hports, hpos, hconfig, hcrashed, hfunc, hlive⟩, hadded, hon⟩
  · exact absurd hs.config (by rw [hconfig]; simp)
  · have hadded : s.added = [] := by rw [hs.added, hb]; rfl
    have hbind : acm_function_bind_config s a = bind_config s a := by
      rw [acm_function_bind_config, if_pos hs.initialized]
    exact Or.inl ⟨nofun, serving_bind hs.toHolds hadded hbind⟩
  · have hon : (android_unbind_enabled_function s).instances_on = 0 := by
      cases hb : s.bound with
      | true => simp [android_unbind_enabled_function, acm_function_unbind_config, hb]
      | false => simpa [android_unbind_enabled_function, hb] using hs.instances_on hb
    obtain ⟨⟨hinit, hports, hpos, hconfig, hcrashed, hfunc, hlive⟩, -, -⟩ := hs
    refine Or.inl ⟨nofun, ?_⟩
    cases hb : s.bound with
    | true =>
      simp only [android_unbind_enabled_function, acm_function_unbind_config, hb, if_true]
      exact ⟨⟨hinit, hports, hpos, hconfig, hcrashed, hfunc, hlive⟩, rfl, fun _ => rfl⟩
    | false =>
      simp only [android_unbind_enabled_function, hb, Bool.false_eq_true, if_false] at hon ⊢
      exact ⟨⟨hinit, hports, hpos, hconfig, hcrashed, hfunc, hlive⟩, rfl, fun _ => hon⟩
  · have hon := hs.instances_on hb
    have hadded : s.added = [] := by rw [hs.added, hb]; rfl
    rw [cleanup_eq hon]
    exact Or.inr ⟨rfl, hb, hs.initialized, hs.ports, hs.crashed, nofun, hs.live, hadded, hon⟩

/-- What a step makes of a function that has ports without references. -/
theorem spent_step {s t : Acm} {n : ℕ} {refs : Finset ℕ} {e : Event} (hs : Spent s n refs)
    (h : step s e = some t) :
    (∃ a, e = .bind a) ∧ 0 < n ∧ s.bound = false ∧
        t = { s with toPorts := { s.toPorts with crashed := true } } ∨
      ((∃ a, e = .bind a) → n = 0) ∧ (t.bound = true → s.bound = true ∨ n = 0) ∧
        Spent t n refs := by
  obtain ⟨hinit, hports, hcrashed, hlost, hlive, hadded, hon⟩ := hs
  rcases step_cases h with ⟨buff, rfl, rfl⟩ | ⟨ok, rfl, hconfig, rfl⟩ | ⟨a, rfl, hconfig, hb, rfl⟩ |
    ⟨rfl, rfl⟩ | ⟨rfl, hb, rfl⟩
  · exact Or.inr ⟨by simp, Or.inl, hinit, hports, hcrashed, hlost, hlive, hadded, hon⟩
  · refine Or.inr ⟨by simp, ?_⟩
    cases ok with
    | true =>
      have hnull : ∀ j k, (acm_function_init s true).func j ≠ .obj k := by
        simp [acm_function_init]
      exact ⟨Or.inl, hinit, hports, hcrashed, fun _ j _ k h => absurd h (hnull j k), hlive, hadded,
        rfl⟩
    | false => exact ⟨Or.inl, hinit, hports, hcrashed, hlost, hlive, hadded, hon⟩
  · have hbind : acm_function_bind_config s a = bind_config s a := by
      rw [acm_function_bind_config, if_pos hinit]
    rcases Nat.eq_zero_or_pos n with rfl | hpos
    · have heq : android_bind_enabled_function s a = { s with bound := true } := by
        simp [android_bind_enabled_function, hbind, bind_config, hports, add_ports, hcrashed]
      rw [heq]
      exact Or.inr ⟨fun _ => rfl, fun _ => Or.inr rfl, hinit, hports, hcrashed, hlost, hlive,
        hadded, hon⟩
    · have hfirst : ∀ k, s.func 0 = .obj k → k ∉ s.functions.live := by
        intro k hk
        rw [hlive.functions_live]
        exact hlost hconfig 0 hpos k hk
      refine Or.inl ⟨⟨a, rfl⟩, hpos, hb, ?_⟩
      simp [android_bind_enabled_function, hbind, bind_config, hports,
        add_ports_lost (a := a.toCoreAnswers) hpos hfirst]
  · refine Or.inr ⟨by simp, by simp [android_unbind_enabled_function], ?_⟩
    cases hb : s.bound with
    | true =>
      simp only [android_unbind_enabled_function, acm_function_unbind_config, hb, if_true]
      exact ⟨hinit, hports, hcrashed, hlost, hlive, rfl, rfl⟩
    | false =>
      simp only [android_unbind_enabled_function, hb, Bool.false_eq_true, if_false]
      exact ⟨hinit, hports, hcrashed, hlost, hlive, rfl, hon⟩
  · rw [cleanup_eq hon]
    exact Or.inr ⟨by simp, Or.inl, hinit, hports, hcrashed, by simp, hlive, hadded, hon⟩

theorem exec_crashed {s t : Acm} {es : List Event} (hs : s.crashed = true)
    (h : exec step s es = some t) : es = [] ∧ t = s := by
  cases es with
  | nil => exact ⟨rfl, (Option.some.inj h).symm⟩
  | cons e es =>
    obtain ⟨m, hm, -⟩ := (exec_cons_eq_some step).mp h
    exact absurd (not_crashed hm) (by rw [hs]; simp)

/-- Ports without references: the next bind crashes, if there is a port. -/
theorem spent_run {s t : Acm} {n : ℕ} {refs : Finset ℕ} {es : List Event} (hs : Spent s n refs)
    (h : exec step s es = some t) :
    (t.crashed = true ↔ 0 < n ∧ ∃ a, .bind a ∈ es) ∧ Live t.functions t.instances refs ∧
      t.added = [] ∧ (t.bound = true → s.bound = true ∨ n = 0) := by
  induction es generalizing s with
  | nil =>
    obtain rfl : s = t := Option.some.inj h
    exact ⟨by simp [hs.crashed], hs.live, hs.added, Or.inl⟩
  | cons e es ih =>
    obtain ⟨m, hm, hrest⟩ := (exec_cons_eq_some step).mp h
    rcases spent_step hs hm with ⟨⟨a, rfl⟩, hpos, hb, rfl⟩ | ⟨hbind, hbound, hm'⟩
    · obtain ⟨rfl, rfl⟩ := exec_crashed rfl hrest
      refine ⟨iff_of_true rfl ⟨hpos, a, List.mem_singleton.mpr rfl⟩, hs.live, hs.added, ?_⟩
      exact Or.inl
    · obtain ⟨hcrashed, hlive, hadded, hbound'⟩ := ih hm' hrest
      refine ⟨hcrashed.trans (and_congr_right fun hpos => ?_), hlive, hadded, ?_⟩
      · constructor
        · rintro ⟨a, ha⟩
          exact ⟨a, List.mem_cons_of_mem e ha⟩
        · rintro ⟨a, ha⟩
          rcases List.mem_cons.mp ha with rfl | ha
          · exact absurd (hbind ⟨a, rfl⟩) hpos.ne'
          · exact ⟨a, ha⟩
      · intro ht
        rcases hbound' ht with hmb | hn
        · exact hbound hmb
        · exact Or.inr hn

theorem rebinds_cons {e : Event} (he : e ≠ .cleanup) (es : List Event) :
    Rebinds (e :: es) ↔ Rebinds es := by
  constructor
  · rintro ⟨fs, a, gs, heq, hmem⟩
    cases fs with
    | nil => simp at hmem
    | cons f fs =>
      obtain ⟨rfl, rfl⟩ := List.cons.inj heq
      rcases List.mem_cons.mp hmem with rfl | hmem
      · exact absurd rfl he
      · exact ⟨fs, a, gs, rfl, hmem⟩
  · rintro ⟨fs, a, gs, rfl, hmem⟩
    exact ⟨e :: fs, a, gs, rfl, List.mem_cons_of_mem e hmem⟩

theorem rebinds_cleanup (es : List Event) :
    Rebinds (.cleanup :: es) ↔ ∃ a, .bind a ∈ es := by
  constructor
  · rintro ⟨fs, a, gs, heq, hmem⟩
    cases fs with
    | nil => simp at hmem
    | cons f fs =>
      obtain ⟨-, rfl⟩ := List.cons.inj heq
      exact ⟨a, by simp⟩
  · rintro ⟨a, ha⟩
    obtain ⟨fs, gs, rfl⟩ := List.append_of_mem ha
    exact ⟨.cleanup :: fs, a, gs, rfl, List.mem_cons_self⟩

/-- Held references serve the binds until a clean-up. -/
theorem serving_run {s t : Acm} {n : ℕ} {es : List Event} (hs : Serving s n)
    (h : exec step s es = some t) :
    (t.crashed = true ↔ Rebinds es) ∧ Live t.functions t.instances (Finset.Ico 0 n) ∧
      t.added = if t.bound then List.range' 0 n else [] := by
  induction es generalizing s with
  | nil =>
    obtain rfl : s = t := Option.some.inj h
    refine ⟨iff_of_false (by rw [hs.crashed]; simp) ?_, hs.live, hs.added⟩
    rintro ⟨fs, a, gs, heq, -⟩
    exact absurd heq (by simp)
  | cons e es ih =>
    obtain ⟨m, hm, hrest⟩ := (exec_cons_eq_some step).mp h
    rcases serving_step hs hm with ⟨he, hm'⟩ | ⟨rfl, hmb, hm'⟩
    · rw [rebinds_cons he]
      exact ih hm' hrest
    · obtain ⟨hcrashed, hlive, hadded, hbound⟩ := spent_run hm' hrest
      rw [rebinds_cleanup]
      have htb : t.bound = false := by
        by_contra hne
        rcases hbound (by simpa using hne) with hb | hn
        · rw [hmb] at hb
          exact absurd hb (by simp)
        · exact absurd hn hs.pos.ne'
      refine ⟨hcrashed.trans (and_iff_right hs.pos), hlive, ?_⟩
      rw [hadded, htb]
      rfl

def opened (s : Acm) (n : ℕ) : Acm := { s with acm_initialized := true, ports := n }

section FirstBind

variable {s : Acm} {a : Answers} {n : ℕ} (hs : Unopened s)

include hs

theorem held_opened : Held (opened s n).toPorts 0 0 0 := by
  refine ⟨nofun, nofun, ?_, ?_⟩
  · exact (congrArg Ledger.live hs.functions).trans (by simp [Ledger.empty])
  · exact (congrArg Ledger.live hs.instances).trans (by simp [Ledger.empty])

theorem bind_of_result {e : ℤ} (hopening : opening s a = (n, some e)) :
    android_bind_enabled_function s a = { opened s n with instances_on := 0, bound := e = 0 } := by
  have hopen := hopening
  rw [opening, ← hs.ports, names] at hopen
  simp only [android_bind_enabled_function, acm_function_bind_config, hs.initialized, hopen, out,
    opened, hs.crashed, Bool.false_eq_true, if_false]

theorem bind_of_setup (hopening : opening s a = (n, none)) (hsetup : a.acm_port_setup ≠ 0) :
    android_bind_enabled_function s a = { opened s n with instances_on := 0, bound := false } := by
  have hopen := hopening
  rw [opening, ← hs.ports, names] at hopen
  simp only [android_bind_enabled_function, acm_function_bind_config, hs.initialized, hopen, out,
    opened, hs.crashed, Bool.false_eq_true, if_false, hsetup, ne_eq, not_false_eq_true, if_true,
    decide_false]

theorem bind_of_get (hopening : opening s a = (n, none)) (hsetup : a.acm_port_setup = 0) {err : ℤ}
    {p : Ports}
    (hget : get_ports MAX_ACM_INSTANCES a.toCoreAnswers (opened s n).toPorts 0 n = (err, p))
    (hp : p.crashed = false) :
    acm_function_bind_config s a =
      if err ≠ 0 then out { opened s n with toPorts := p } err
      else bind_config { opened s n with toPorts := { p with instances_on := n } } a := by
  have hopen := hopening
  rw [opening, ← hs.ports, names] at hopen
  rw [opened] at hget
  simp only [acm_function_bind_config, hs.initialized, hopen, Bool.false_eq_true, if_false, hsetup,
    ne_eq, not_true_eq_false, hget, hp, opened]

/-- The first bind takes the references of all its ports, or none. -/
theorem first_bind (hconfig : s.config = true) :
    (Serves s a → Serving (android_bind_enabled_function s a) (opening s a).1) ∧
      (¬ Serves s a → Spent (android_bind_enabled_function s a) (opening s a).1 ∅ ∧
        ((android_bind_enabled_function s a).bound = true ↔ (opening s a).2 = some 0)) := by
  have hnames : names s ≠ [] := fields_ne_nil _ _
  obtain ⟨-, -, hnone, -⟩ :=
    init_ports_bounds (f := a.acm_init_port) (show 0 < MAX_ACM_INSTANCES by decide) (names s)
  have hempty : Live s.functions s.instances ∅ := by
    rw [hs.functions, hs.instances]
    exact ⟨rfl, rfl, rfl, rfl⟩
  rcases hopening : opening s a with ⟨n, _ | e⟩
  · obtain ⟨hlen, hlt⟩ := hnone (congrArg Prod.snd hopening)
    have hn : n = (opening s a).1 := (congrArg Prod.fst hopening).symm
    have hpos : 0 < n := by
      have hnamesPos := List.length_pos_iff.mpr hnames
      rw [hn]
      exact hlen ▸ by omega
    by_cases hsetup : a.acm_port_setup = 0
    · have hgot := get_ports_got (k := n) (a := a.toCoreAnswers) (held_opened (n := n) hs)
        (congrArg Ledger.made hs.functions) (congrArg Ledger.made hs.instances)
        (Nat.zero_le MAX_ACM_INSTANCES)
      rcases hget : get_ports MAX_ACM_INSTANCES a.toCoreAnswers (opened s n).toPorts 0 n with
        ⟨err, p⟩
      rw [hget] at hgot
      cases hgot with
      | all _ hle hgiven hheld hkeeps =>
        have hserves : Serves s a := by
          rw [Serves, hopening]
          exact ⟨rfl, hsetup, hgiven⟩
        refine ⟨fun _ => ?_, fun hnot => absurd hserves hnot⟩
        have hpc : p.crashed = false := hkeeps.crashed.trans hs.crashed
        have hbind := bind_of_get hs hopening hsetup hget hpc
        rw [if_neg (not_not.mpr rfl)] at hbind
        obtain ⟨hfunc, -, hlive, hlive'⟩ := hheld
        simp only [Nat.zero_add] at hfunc hlive hlive'
        have hlive : Live p.functions p.instances (Finset.Ico 0 n) := ⟨hlive, hlive',
          hkeeps.functions.trans hempty.functions_faults,
          hkeeps.instances.trans hempty.instances_faults⟩
        exact serving_bind (u := { opened s n with toPorts := { p with instances_on := n } })
          ⟨rfl, rfl, hpos, hconfig, hpc, hfunc, hlive⟩ (hkeeps.added.trans hs.added) hbind
      | overrun _ hmax =>
        rw [hn] at hmax
        exact absurd hlt (by rw [opening] at hmax; omega)
      | refused _ _ he hgiven hreleased hkeeps hused =>
        have hpc : p.crashed = false := hkeeps.crashed.trans hs.crashed
        have hbind := bind_of_get hs hopening hsetup hget hpc
        rw [if_pos he] at hbind
        have ht : android_bind_enabled_function s a =
            { opened s n with toPorts := { p with instances_on := 0 }, bound := false } := by
          simp [android_bind_enabled_function, hbind, out, hpc, he]
        rw [ht]
        refine ⟨fun hserves => ?_, fun _ => ⟨⟨rfl, rfl, hpc, ?_, ?_, ?_, rfl⟩, by simp⟩⟩
        · have hall := hserves.2.2
          rw [hopening] at hall
          exact absurd (fun j hij hj => hall j hij (by omega)) hgiven
        · exact fun _ j _ k _ => Finset.notMem_empty k
        · exact ⟨hreleased.functions, hreleased.instances,
            hkeeps.functions.trans hempty.functions_faults,
            hkeeps.instances.trans hempty.instances_faults⟩
        · exact hkeeps.added.trans hs.added
    · rw [bind_of_setup hs hopening hsetup]
      refine ⟨fun hserves => absurd hserves.2.1 hsetup, fun _ => ⟨?_, by simp⟩⟩
      exact ⟨rfl, rfl, hs.crashed, fun _ j _ k _ => Finset.notMem_empty k, hempty, hs.added, rfl⟩
  · rw [bind_of_result hs hopening]
    refine ⟨fun hserves => ?_, fun _ => ⟨?_, by simp⟩⟩
    · have hfirst := hserves.1
      rw [hopening] at hfirst
      exact absurd hfirst (by simp)
    · exact ⟨rfl, rfl, hs.crashed, fun _ j _ k _ => Finset.notMem_empty k, hempty, hs.added, rfl⟩

end FirstBind

theorem unopened_run {s : Acm} {es : List Event} (hes : ∀ a, .bind a ∉ es)
    (h : exec step initial es = some s) : Unopened s := by
  have hkeep : ∀ s e t, Unopened s → step s e = some t → (∀ a, e ≠ .bind a) → Unopened t := by
    intro s e t hs ht he
    exact unopened_step hs he ht
  refine exec_invariant_of_allSteps step hkeep unopened_initial ?_ h
  refine allSteps_of_mem step (C := fun e => ∀ a, e ≠ .bind a) ?_ _
  intro e he a heq
  exact hes a (heq ▸ he)

def granting : Answers where
  get_function_instance _ := 0
  get_function _ := 0
  add_function _ := 0
  acm_init_port _ _ := 0
  acm_port_setup := 0

def stored (transports : List Char) : Acm :=
  { initial with config := true, acm_transports := transports }

theorem exec_stored {transports : List Char}
    (h : strlcpy transports transportsSize = transports) :
    exec step initial [.init true, .transports_store transports] = some (stored transports) := by
  simp [exec, step, acm_function_init, acm_transports_store, h, stored, initial]

/-- The first bind leaves a function bound without a port exactly when the driver
opens as many ports as there are places. -/
theorem bound_without_ports {s t : Acm} {a : Answers} {es : List Event}
    (hes : ∀ b, .bind b ∉ es) (hrun : exec step initial es = some s)
    (hbind : step s (.bind a) = some t) :
    t.bound = true ∧ t.added = [] ↔
      ∀ i < MAX_ACM_INSTANCES, ∃ name ∈ (names s)[i]?, a.acm_init_port i name = 0 := by
  have hs := unopened_run hes hrun
  rcases step_cases hbind with
    ⟨_, ⟨⟩, -⟩ | ⟨_, ⟨⟩, -⟩ | ⟨_, ⟨⟩, hconfig, -, rfl⟩ | ⟨⟨⟩, -⟩ | ⟨⟨⟩, -⟩
  obtain ⟨hserving, hspent⟩ := first_bind (a := a) hs hconfig
  have hlimit := init_ports_limit (f := a.acm_init_port)
    (show 0 < MAX_ACM_INSTANCES by decide) (names s)
  simp only [Nat.sub_zero, Nat.zero_add] at hlimit
  rw [← hlimit]
  by_cases hserves : Serves s a
  · have ht := hserving hserves
    have hpos := ht.pos
    refine iff_of_false ?_ ?_
    · rintro ⟨hbound, hadded⟩
      have hports := ht.added
      rw [hbound, if_pos rfl, hadded] at hports
      have hlen := congrArg List.length hports
      rw [List.length_nil, List.length_range'] at hlen
      omega
    · have hnone := hserves.1
      rw [opening] at hnone
      rw [hnone]
      simp
  · obtain ⟨ht, hbound⟩ := hspent hserves
    rw [and_iff_left ht.added, hbound]
    rfl

theorem bound_without_ports_four : ∃ t,
    step (stored ['a', ',', 'b', ',', 'c', ',', 'd']) (.bind granting) = some t ∧
      t.bound = true ∧ t.added = [] := by
  obtain ⟨t, ht⟩ : ∃ t,
      step (stored ['a', ',', 'b', ',', 'c', ',', 'd']) (.bind granting) = some t :=
    Option.isSome_iff_exists.mp rfl
  refine ⟨t, ht, (bound_without_ports (by simp) (exec_stored rfl) ht).mpr ?_⟩
  intro i hi
  have hlen : (names (stored ['a', ',', 'b', ',', 'c', ',', 'd'])).length = 4 := rfl
  exact ⟨_, List.getElem?_eq_getElem (hlen ▸ hi), rfl⟩

end Fixed.AcmPorts
