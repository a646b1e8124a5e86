import Fixed.ObjectLedger
import Mathlib.Logic.Function.Basic
import Mathlib.Order.Interval.Finset.Nat

/-!
Gadget functions with several ports. `acm` and `serial` take an instance and a
function of the gadget core for each port and keep them in two arrays, and a bind
adds the functions to the configuration one after another. What a loop has done
before one of its calls fails is undone again, so both taking and adding are all
or nothing. The gadget core is outside this repository: what it answers is given,
and a function it is to add must be a live one.
-/
namespace Fixed.PortPairs

open ObjectLedger

structure Ports where
  instances_on : ℕ
  /-- `f_acm` or `f_serial`. -/
  func : ℕ → Ptr
  /-- `f_acm_inst` or `f_serial_inst`. -/
  inst : ℕ → Ptr
  functions : Ledger
  instances : Ledger
  /-- The functions in the configuration. -/
  added : List ℕ
  /-- A pointer to no live function was followed, or an array written behind its end. -/
  crashed : Bool

/-- The results of the calls of the gadget core a bind makes. A reference that is not
given is an error pointer of the result. -/
structure CoreAnswers where
  get_function_instance : ℕ → ℤ
  get_function : ℕ → ℤ
  add_function : ℕ → ℤ

def usb_get_function_instance (s : Ports) (ans : ℤ) : Ptr × Ports :=
  if ans = 0 then (.obj s.instances.made, { s with instances := s.instances.alloc })
  else (.err ans, s)

def usb_get_function (s : Ports) (ans : ℤ) : Ptr × Ports :=
  if ans = 0 then (.obj s.functions.made, { s with functions := s.functions.alloc })
  else (.err ans, s)

def usb_put_function_instance (s : Ports) (p : Ptr) : Ports :=
  { s with instances := s.instances.release p }

def usb_put_function (s : Ports) (p : Ptr) : Ports :=
  { s with functions := s.functions.release p }

def usb_add_function (s : Ports) (p : Ptr) (ans : ℤ) : ℤ × Ports :=
  match p with
  | .obj n =>
    if n ∈ s.functions.live then
      (ans, if ans = 0 then { s with added := s.added ++ [n] } else s)
    else (ans, { s with crashed := true })
  | _ => (ans, { s with crashed := true })

def usb_remove_function (s : Ports) (p : Ptr) : Ports :=
  match p with
  | .obj n => { s with added := s.added.erase n }
  | _ => s

/-- The ports that a loop over the names of the transports opens. The second part
is the result when it leaves for `out`. -/
def init_ports {α : Type*} (max : ℕ) (init_port : ℕ → α → ℤ) : ℕ → List α → ℕ × Option ℤ
  | ports, [] => (ports, none)
  | ports, name :: names =>
    let err := init_port ports name
    if err ≠ 0 then (ports, some err)
    else if max ≤ ports + 1 then (ports + 1, some err)
    else init_ports max init_port (ports + 1) names

def put_port (s : Ports) (i : ℕ) : Ports :=
  let s := usb_put_function s (s.func i)
  usb_put_function_instance s (s.inst i)

def put_before (s : Ports) : ℕ → Ports
  | 0 => s
  | i + 1 => put_before (put_port s i) i

def get_ports (max : ℕ) (a : CoreAnswers) (s : Ports) (i : ℕ) : ℕ → ℤ × Ports
  | 0 => (0, s)
  | k + 1 =>
    if max ≤ i then (0, { s with crashed := true })
    else
      let (fi, s) := usb_get_function_instance s (a.get_function_instance i)
      let s := { s with inst := Function.update s.inst i fi }
      match fi with
      | .err e => (e, put_before s i)
      | _ =>
        let (f, s) := usb_get_function s (a.get_function i)
        let s := { s with func := Function.update s.func i f }
        match f with
        | .err e => (e, put_before (usb_put_function_instance s (s.inst i)) i)
        | _ => get_ports max a s (i + 1) k

def remove_before (s : Ports) : ℕ → Ports
  | 0 => s
  | i + 1 => remove_before (usb_remove_function s (s.func i)) i

def add_ports (a : CoreAnswers) (s : Ports) (i : ℕ) : ℕ → ℤ × Ports
  | 0 => (0, s)
  | k + 1 =>
    let (err, s) := usb_add_function s (s.func i) (a.add_function i)
    if s.crashed then (err, s)
    else if err ≠ 0 then (err, remove_before s i)
    else add_ports a s (i + 1) k

def put_ports (max : ℕ) (s : Ports) (i : ℕ) : ℕ → Ports
  | 0 => s
  | k + 1 =>
    if max ≤ i then { s with crashed := true } else put_ports max (put_port s i) (i + 1) k

section Init

variable {α : Type*} {max : ℕ} {f : ℕ → α → ℤ}

/-- The ports opened, and when there is a result: never `0` but at the limit. -/
theorem init_ports_bounds {ports : ℕ} (h : ports < max) (names : List α) :
    let r := init_ports max f ports names
    ports ≤ r.1 ∧ r.1 ≤ max ∧ (r.2 = none → r.1 = ports + names.length ∧ r.1 < max) ∧
      ∀ e, r.2 = some e → (e = 0 ↔ r.1 = max) := by
  induction names generalizing ports with
  | nil => exact ⟨le_rfl, h.le, fun _ => ⟨rfl, h⟩, nofun⟩
  | cons name names ih =>
    dsimp only
    rw [init_ports]
    by_cases hopen : f ports name = 0
    · rw [if_neg (not_not.mpr hopen)]
      by_cases hmax : max ≤ ports + 1
      · rw [if_pos hmax, hopen]
        refine ⟨by omega, by omega, nofun, ?_⟩
        rintro e ⟨⟩
        simp only [true_iff]
        omega
      · rw [if_neg hmax]
        obtain ⟨hle, hge, hnone, hsome⟩ := ih (not_le.mp hmax)
        refine ⟨by omega, hge, ?_, hsome⟩
        intro hr
        obtain ⟨hlen, hlt⟩ := hnone hr
        exact ⟨by rw [hlen, List.length_cons]; omega, hlt⟩
    · rw [if_pos hopen]
      refine ⟨le_rfl, h.le, nofun, ?_⟩
      rintro e ⟨⟩
      exact ⟨fun he => absurd he hopen, fun he => absurd he h.ne⟩

/-- The limit is reached when the driver opens that many ports. -/
theorem init_ports_limit {ports : ℕ} (h : ports < max) (names : List α) :
    (init_ports max f ports names).2 = some 0 ↔
      ∀ i < max - ports, ∃ name ∈ names[i]?, f (ports + i) name = 0 := by
  induction names generalizing ports with
  | nil =>
    refine ⟨nofun, fun hall => ?_⟩
    obtain ⟨name, hname, -⟩ := hall 0 (by omega)
    exact absurd hname nofun
  | cons name names ih =>
    rw [init_ports]
    by_cases hopen : f ports name = 0
    · have hzero : ∃ x ∈ (name :: names)[0]?, f (ports + 0) x = 0 := ⟨name, rfl, hopen⟩
      rw [if_neg (not_not.mpr hopen)]
      by_cases hmax : max ≤ ports + 1
      · rw [if_pos hmax, hopen]
        refine ⟨fun _ i hi => ?_, fun _ => rfl⟩
        obtain rfl : i = 0 := by omega
        exact hzero
      · rw [if_neg hmax, ih (not_le.mp hmax)]
        constructor
        · intro hall i hi
          cases i with
          | zero => exact hzero
          | succ i =>
            rw [List.getElem?_cons_succ, show ports + (i + 1) = ports + 1 + i by omega]
            exact hall i (by omega)
        · intro hall i hi
          have hnext := hall (i + 1) (by omega)
          rwa [List.getElem?_cons_succ, show ports + (i + 1) = ports + 1 + i by omega] at hnext
    · rw [if_pos hopen]
      constructor
      · intro heq
        exact absurd (Option.some.inj heq) hopen
      · intro hall
        obtain ⟨x, hx, hzero⟩ := hall 0 (by omega)
        obtain rfl : name = x := Option.some.inj hx
        exact absurd hzero hopen

/-- A driver that opens every port. -/
theorem init_ports_open {ports : ℕ} (h : ports < max) (hf : ∀ i x, f i x = 0) (names : List α) :
    init_ports max f ports names =
      if ports + names.length < max then (ports + names.length, none) else (max, some 0) := by
  induction names generalizing ports with
  | nil => exact (if_pos h).symm
  | cons name names ih =>
    rw [init_ports, hf]
    simp only [ne_eq, not_true_eq_false, if_false, List.length_cons]
    by_cases hmax : max ≤ ports + 1
    · rw [if_pos hmax, if_neg (by omega), show ports + 1 = max by omega]
    · rw [if_neg hmax, ih (by omega)]
      have heq : ports + 1 + names.length = ports + (names.length + 1) := by omega
      rw [heq]

end Init

/-- The first `i` ports have their references, numbered from `m` and `n` on, and no
other reference is live. -/
structure Held (s : Ports) (m n i : ℕ) : Prop where
  func : ∀ j < i, s.func j = .obj (m + j)
  inst : ∀ j < i, s.inst j = .obj (n + j)
  functions : s.functions.live = Finset.Ico m (m + i)
  instances : s.instances.live = Finset.Ico n (n + i)

structure Ports.Released (s : Ports) : Prop where
  functions : s.functions.live = ∅
  instances : s.instances.live = ∅

/-- The configuration and the number of instances are as before, and nothing but
live references was put. -/
structure Ports.Keeps (s t : Ports) : Prop where
  instances_on : t.instances_on = s.instances_on
  added : t.added = s.added
  crashed : t.crashed = s.crashed
  functions : t.functions.faults = s.functions.faults
  instances : t.instances.faults = s.instances.faults

def CoreAnswers.Gives (a : CoreAnswers) (i k : ℕ) : Prop :=
  ∀ j, i ≤ j → j < i + k → a.get_function_instance j = 0 ∧ a.get_function j = 0

theorem Ports.Keeps.refl (s : Ports) : s.Keeps s := ⟨rfl, rfl, rfl, rfl, rfl⟩

theorem Ports.Keeps.trans {s t u : Ports} (h : s.Keeps t) (h' : t.Keeps u) : s.Keeps u where
  instances_on := h'.instances_on.trans h.instances_on
  added := h'.added.trans h.added
  crashed := h'.crashed.trans h.crashed
  functions := h'.functions.trans h.functions
  instances := h'.instances.trans h.instances

theorem Held.released {s : Ports} {m n : ℕ} (h : Held s m n 0) : s.Released where
  functions := by rw [h.functions, Nat.add_zero, Finset.Ico_self]
  instances := by rw [h.instances, Nat.add_zero, Finset.Ico_self]

theorem erase_last (m i : ℕ) :
    (Finset.Ico m (m + (i + 1))).erase (m + i) = Finset.Ico m (m + i) := by
  ext x
  rw [Finset.mem_erase, Finset.mem_Ico, Finset.mem_Ico]
  omega

theorem insert_next (m i : ℕ) : insert (m + i) (Finset.Ico m (m + i)) =
    Finset.Ico m (m + (i + 1)) := by
  ext x
  rw [Finset.mem_insert, Finset.mem_Ico, Finset.mem_Ico]
  omega

section Get

variable {s : Ports} {m n i : ℕ}

/-- The puts of live references. -/
theorem put_port_live (hfunc : s.func i = .obj m) (hinst : s.inst i = .obj n)
    (hm : m ∈ s.functions.live) (hn : n ∈ s.instances.live) :
    (put_port s i).functions.live = s.functions.live.erase m ∧
      (put_port s i).instances.live = s.instances.live.erase n ∧ s.Keeps (put_port s i) := by
  have hput : put_port s i = { s with
      functions := s.functions.release (.obj m), instances := s.instances.release (.obj n) } := by
    simp only [put_port, usb_put_function, usb_put_function_instance, hfunc, hinst]
  rw [hput]
  exact ⟨Ledger.release_live hm, Ledger.release_live hn, rfl, rfl, rfl,
    Ledger.release_faults hm, Ledger.release_faults hn⟩

/-- Both puts of the last port. -/
theorem Held.put_last (h : Held s m n (i + 1)) :
    Held (put_port s i) m n i ∧ s.Keeps (put_port s i) := by
  obtain ⟨hfunctions, hinstances, hkeeps⟩ := put_port_live (h.func i (Nat.lt_succ_self i))
    (h.inst i (Nat.lt_succ_self i)) (by rw [h.functions, Finset.mem_Ico]; omega)
    (by rw [h.instances, Finset.mem_Ico]; omega)
  refine ⟨⟨?_, ?_, ?_, ?_⟩, hkeeps⟩
  · intro j hj
    exact h.func j (Nat.lt_succ_of_lt hj)
  · intro j hj
    exact h.inst j (Nat.lt_succ_of_lt hj)
  · rw [hfunctions, h.functions, erase_last]
  · rw [hinstances, h.instances, erase_last]

/-- The puts take back all references. -/
theorem put_before_released (h : Held s m n i) :
    (put_before s i).Released ∧ s.Keeps (put_before s i) ∧
      (put_before s i).inst = s.inst := by
  induction i generalizing s with
  | zero => exact ⟨h.released, .refl s, rfl⟩
  | succ i ih =>
    obtain ⟨hheld, hkeeps⟩ := h.put_last
    obtain ⟨hreleased, hkeeps', hinst⟩ := ih hheld
    exact ⟨hreleased, hkeeps.trans hkeeps', hinst⟩

def take_port (s : Ports) (i : ℕ) : Ports :=
  { s with
    inst := Function.update s.inst i (.obj s.instances.made)
    func := Function.update s.func i (.obj s.functions.made)
    instances := s.instances.alloc
    functions := s.functions.alloc }

theorem get_ports_given {max k : ℕ} {a : CoreAnswers} (hi : i < max)
    (hinst : a.get_function_instance i = 0) (hfunc : a.get_function i = 0) :
    get_ports max a s i (k + 1) = get_ports max a (take_port s i) (i + 1) k := by
  simp [get_ports, usb_get_function_instance, usb_get_function, take_port, hinst, hfunc,
    Nat.not_le.mpr hi]

theorem get_ports_no_instance {max k : ℕ} {a : CoreAnswers} (hi : i < max)
    (hinst : a.get_function_instance i ≠ 0) :
    get_ports max a s i (k + 1) = (a.get_function_instance i, put_before
      { s with inst := Function.update s.inst i (.err (a.get_function_instance i)) } i) := by
  simp [get_ports, usb_get_function_instance, hinst, Nat.not_le.mpr hi]

theorem get_ports_no_function {max k : ℕ} {a : CoreAnswers} (hi : i < max)
    (hinst : a.get_function_instance i = 0) (hfunc : a.get_function i ≠ 0) :
    get_ports max a s i (k + 1) = (a.get_function i, put_before
      { s with
        inst := Function.update s.inst i (.obj s.instances.made)
        func := Function.update s.func i (.err (a.get_function i))
        instances := s.instances.alloc.release (.obj s.instances.made) } i) := by
  simp [get_ports, usb_get_function_instance, usb_get_function, usb_put_function_instance, hinst,
    hfunc, Nat.not_le.mpr hi]

inductive Got (max : ℕ) (a : CoreAnswers) (s : Ports) (m n i k : ℕ) : ℤ × Ports → Prop
  | all (t : Ports) (hle : i + k ≤ max) (hgiven : a.Gives i k) (hheld : Held t m n (i + k))
      (hkeeps : s.Keeps t) : Got max a s m n i k (0, t)
  | overrun (t : Ports) (hlt : max < i + k) (hgiven : a.Gives i (max - i))
      (hheld : Held t m n max) (hcrashed : t.crashed = true) : Got max a s m n i k (0, t)
  | refused (e : ℤ) (t : Ports) (he : e ≠ 0) (hgiven : ¬ a.Gives i (min max (i + k) - i))
      (hreleased : t.Released) (hkeeps : s.Keeps t)
      (hused : ∃ j < min max (i + k), t.inst j ≠ .null) : Got max a s m n i k (e, t)

theorem Held.taken (h : Held s m n i) (hm : s.functions.made = m + i)
    (hn : s.instances.made = n + i) : Held (take_port s i) m n (i + 1) := by
  refine ⟨?_, ?_, ?_, ?_⟩
  · intro j hj
    rcases Nat.lt_succ_iff_lt_or_eq.mp hj with hlt | rfl
    · exact (Function.update_of_ne hlt.ne _ _).trans (h.func j hlt)
    · rw [take_port, hm]
      exact Function.update_self ..
  · intro j hj
    rcases Nat.lt_succ_iff_lt_or_eq.mp hj with hlt | rfl
    · exact (Function.update_of_ne hlt.ne _ _).trans (h.inst j hlt)
    · rw [take_port, hn]
      exact Function.update_self ..
  · rw [take_port, Ledger.alloc_live, h.functions, hm, insert_next]
  · rw [take_port, Ledger.alloc_live, h.instances, hn, insert_next]

theorem gives_succ {a : CoreAnswers} {k : ℕ} (hinst : a.get_function_instance i = 0)
    (hfunc : a.get_function i = 0) : a.Gives i (k + 1) ↔ a.Gives (i + 1) k := by
  constructor
  · intro h j hij hj
    exact h j (by omega) (by omega)
  · intro h j hij hj
    rcases Nat.eq_or_lt_of_le hij with rfl | hlt
    · exact ⟨hinst, hfunc⟩
    · exact h j hlt (by omega)

/-- The loop takes the references of all its ports, or those it has taken are put
again; if there are more ports than places in the arrays, and the references are
given for all places, it goes on behind their end. -/
theorem get_ports_got {max k : ℕ} {a : CoreAnswers} (h : Held s m n i)
    (hm : s.functions.made = m + i) (hn : s.instances.made = n + i) (hi : i ≤ max) :
    Got max a s m n i k (get_ports max a s i k) := by
  induction k generalizing s i with
  | zero =>
    exact .all s hi (fun j hij hj => by omega) h (.refl s)
  | succ k ih =>
    rcases Nat.eq_or_lt_of_le hi with rfl | hlt
    · rw [get_ports, if_pos le_rfl]
      refine .overrun _ (by omega) (fun j hij hj => by omega) ?_ rfl
      exact ⟨h.func, h.inst, h.functions, h.instances⟩
    by_cases hinst : a.get_function_instance i = 0
    · by_cases hfunc : a.get_function i = 0
      · rw [get_ports_given hlt hinst hfunc]
        have hkeeps : s.Keeps (take_port s i) := ⟨rfl, rfl, rfl, rfl, rfl⟩
        have hgives := fun k => gives_succ (k := k) hinst hfunc
        have hgot := ih (h.taken hm hn) (by rw [take_port]; exact congrArg (· + 1) hm)
          (by rw [take_port]; exact congrArg (· + 1) hn) hlt
        generalize get_ports max a (take_port s i) (i + 1) k = r at hgot
        cases hgot with
        | all t hle hgiven hheld hkeeps' =>
          refine .all t (by omega) ((hgives k).mpr hgiven) ?_ (hkeeps.trans hkeeps')
          rwa [show i + (k + 1) = i + 1 + k by omega]
        | overrun t hmax hgiven hheld hcrashed =>
          refine .overrun t (by omega) ?_ hheld hcrashed
          rw [show max - i = max - (i + 1) + 1 by omega]
          exact (hgives _).mpr hgiven
        | refused e t he hgiven hreleased hkeeps' hused =>
          rw [show i + 1 + k = i + (k + 1) by omega] at hgiven hused
          refine .refused e t he ?_ hreleased (hkeeps.trans hkeeps') hused
          rw [show min max (i + (k + 1)) - i = min max (i + (k + 1)) - (i + 1) + 1 by omega]
          exact fun hall => hgiven ((hgives _).mp hall)
      · rw [get_ports_no_function hlt hinst hfunc]
        set u : Ports := { s with
          inst := Function.update s.inst i (.obj s.instances.made)
          func := Function.update s.func i (.err (a.get_function i))
          instances := s.instances.alloc.release (.obj s.instances.made) }
        have hu : Held u m n i := by
          refine ⟨?_, ?_, h.functions, ?_⟩
          · intro j hj
            exact (Function.update_of_ne hj.ne _ _).trans (h.func j hj)
          · intro j hj
            exact (Function.update_of_ne hj.ne _ _).trans (h.inst j hj)
          · exact (Ledger.release_alloc_live _).trans h.instances
        obtain ⟨hreleased, hkeeps, hsame⟩ := put_before_released hu
        have hu' : s.Keeps u := ⟨rfl, rfl, rfl, rfl, Ledger.release_alloc_faults _⟩
        refine .refused _ _ hfunc ?_ hreleased (hu'.trans hkeeps) ⟨i, by omega, ?_⟩
        · intro hall
          exact hfunc (hall i le_rfl (by omega)).2
        · rw [hsame]
          exact (Function.update_self i _ s.inst).trans_ne (by simp)
    · rw [get_ports_no_instance hlt hinst]
      set u : Ports := { s with
        inst := Function.update s.inst i (.err (a.get_function_instance i)) }
      have hu : Held u m n i := by
        refine ⟨h.func, ?_, h.functions, h.instances⟩
        intro j hj
        exact (Function.update_of_ne hj.ne _ _).trans (h.inst j hj)
      obtain ⟨hreleased, hkeeps, hsame⟩ := put_before_released hu
      have hu' : s.Keeps u := ⟨rfl, rfl, rfl, rfl, rfl⟩
      refine .refused _ _ hinst ?_ hreleased (hu'.trans hkeeps) ⟨i, by omega, ?_⟩
      · intro hall
        exact hinst (hall i le_rfl (by omega)).1
      · rw [hsame]
        exact (Function.update_self i _ s.inst).trans_ne (by simp)

end Get

section Add

variable {s : Ports} {a : CoreAnswers} {m i : ℕ}

def CoreAnswers.Adds (a : CoreAnswers) (i k : ℕ) : Prop :=
  ∀ j, i ≤ j → j < i + k → a.add_function j = 0

theorem range'_erase_last (m i : ℕ) :
    (List.range' m (i + 1)).erase (m + i) = List.range' m i := by
  have hnotMem : m + i ∉ List.range' m i := by
    rw [List.mem_range'_1]
    omega
  rw [List.range'_1_concat, List.erase_append_right _ hnotMem, List.erase_cons_head,
    List.append_nil]

/-- The removals take back the functions added before. -/
theorem remove_before_added (hfunc : ∀ j < i, s.func j = .obj (m + j))
    (hadded : s.added = List.range' m i) : remove_before s i = { s with added := [] } := by
  induction i generalizing s with
  | zero =>
    rw [List.range'_zero] at hadded
    rw [remove_before, ← hadded]
  | succ i ih =>
    have hlast : usb_remove_function s (s.func i) = { s with added := List.range' m i } := by
      rw [hfunc i (Nat.lt_succ_self i), usb_remove_function, hadded, range'_erase_last]
    rw [remove_before, hlast]
    exact ih (fun j hj => hfunc j (Nat.lt_succ_of_lt hj)) rfl

/-- Live functions are all added, or those added before the first that is refused
are removed again. -/
theorem add_ports_live {k : ℕ}
    (hlive : ∀ j < i + k, s.func j = .obj (m + j) ∧ m + j ∈ s.functions.live)
    (hadded : s.added = List.range' m i) (hcrashed : s.crashed = false) :
    ∃ err : ℤ, (err = 0 ↔ a.Adds i k) ∧
      add_ports a s i k =
        (err, { s with added := if err = 0 then List.range' m (i + k) else [] }) := by
  induction k generalizing s i with
  | zero =>
    refine ⟨0, ⟨fun _ j hij hj => by omega, fun _ => rfl⟩, ?_⟩
    rw [add_ports, if_pos rfl, Nat.add_zero, ← hadded]
  | succ k ih =>
    obtain ⟨hfunc, hmem⟩ := hlive i (by omega)
    by_cases hans : a.add_function i = 0
    · have hnext : add_ports a s i (k + 1) =
          add_ports a { s with added := s.added ++ [m + i] } (i + 1) k := by
        simp [add_ports, usb_add_function, hfunc, hmem, hans, hcrashed]
      have hlive' : ∀ j < i + 1 + k, s.func j = .obj (m + j) ∧ m + j ∈ s.functions.live := by
        intro j hj
        exact hlive j (by omega)
      obtain ⟨err, herr, heq⟩ := ih (s := { s with added := s.added ++ [m + i] }) hlive'
        (by rw [List.range'_1_concat, ← hadded]) hcrashed
      refine ⟨err, herr.trans ⟨?_, ?_⟩, ?_⟩
      · intro hrest j hij hj
        rcases Nat.eq_or_lt_of_le hij with rfl | hlt
        · exact hans
        · exact hrest j hlt (by omega)
      · intro hall j hij hj
        exact hall j (by omega) (by omega)
      · rw [hnext, heq, show i + 1 + k = i + (k + 1) by omega]
    · refine ⟨a.add_function i, ⟨fun h => absurd h hans, fun h => h i le_rfl (by omega)⟩, ?_⟩
      have hremoved := remove_before_added (fun j hj => (hlive j (by omega)).1) hadded
      simp [add_ports, usb_add_function, hfunc, hmem, hans, hcrashed, hremoved]

/-- A function that is not live is followed all the same. -/
theorem add_ports_lost {k : ℕ} (hk : 0 < k)
    (hlost : ∀ n, s.func i = .obj n → n ∉ s.functions.live) :
    add_ports a s i k = (a.add_function i, { s with crashed := true }) := by
  obtain ⟨k, rfl⟩ := Nat.exists_eq_succ_of_ne_zero hk.ne'
  cases hfunc : s.func i with
  | null => simp [add_ports, usb_add_function, hfunc]
  | err e => simp [add_ports, usb_add_function, hfunc]
  | obj n => simp [add_ports, usb_add_function, hfunc, hlost n hfunc]

end Add

section Put

variable {max : ℕ} {s : Ports} {m n i k : ℕ}

/-- The clean-up puts the references that are held. -/
theorem put_ports_held (hmax : i + k ≤ max)
    (hfunc : ∀ j, i ≤ j → j < i + k → s.func j = .obj (m + j))
    (hinst : ∀ j, i ≤ j → j < i + k → s.inst j = .obj (n + j))
    (hfunctions : s.functions.live = Finset.Ico (m + i) (m + i + k))
    (hinstances : s.instances.live = Finset.Ico (n + i) (n + i + k)) :
    (put_ports max s i k).Released ∧ s.Keeps (put_ports max s i k) := by
  induction k generalizing s i with
  | zero =>
    rw [Nat.add_zero, Finset.Ico_self] at hfunctions hinstances
    exact ⟨⟨hfunctions, hinstances⟩, .refl s⟩
  | succ k ih =>
    obtain ⟨hf, hi, hkeeps⟩ := put_port_live (hfunc i le_rfl (by omega))
      (hinst i le_rfl (by omega)) (by rw [hfunctions, Finset.mem_Ico]; omega)
      (by rw [hinstances, Finset.mem_Ico]; omega)
    have herase : ∀ l : ℕ, (Finset.Ico (l + i) (l + i + (k + 1))).erase (l + i) =
        Finset.Ico (l + (i + 1)) (l + (i + 1) + k) := by
      intro l
      ext x
      rw [Finset.mem_erase, Finset.mem_Ico, Finset.mem_Ico]
      omega
    rw [hfunctions, herase] at hf
    rw [hinstances, herase] at hi
    rw [put_ports, if_neg (by omega)]
    obtain ⟨hreleased, hkeeps'⟩ := ih (i := i + 1) (s := put_port s i) (by omega)
      (fun j hij hj => hfunc j (by omega) (by omega))
      (fun j hij hj => hinst j (by omega) (by omega)) hf hi
    exact ⟨hreleased, hkeeps.trans hkeeps'⟩

/-- Puts of what is not live make nothing live. -/
theorem put_ports_released (hs : s.Released) :
    (put_ports max s i k).Released ∧ (put_ports max s i k).added = s.added := by
  induction k generalizing s i with
  | zero => exact ⟨hs, rfl⟩
  | succ k ih =>
    rw [put_ports]
    split
    · exact ⟨⟨hs.functions, hs.instances⟩, rfl⟩
    · exact ih ⟨Ledger.release_live_empty hs.functions _, Ledger.release_live_empty hs.instances _⟩

end Put

end Fixed.PortPairs
