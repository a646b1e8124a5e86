import Fixed.TempTelemetry
import Fixed.Runs

/-!
The main loop and the event thread on the chars they share. A sample is
published in two stores, and the head of a frame is copied byte by byte, in
any order and with any steps of the main loop in between. Which sample a byte
belongs to is read off the number of stores made before it was copied, so the
integer and the hundredths of every transmitted frame belong to one sample
exactly when these numbers agree for every frame that is sent.
-/
namespace Fixed.TempSampling

open Runs TempTelemetry

structure Cell where
  value : Int8
  sample : ℕ
deriving DecidableEq

/-- A byte of a frame, with the number of stores made before it was copied. -/
structure Copied where
  cell : Cell
  clock : ℕ
deriving DecidableEq

/-- The main loop waits for commands or is about to store a part of a sample. -/
inductive Main
  | wait
  | integer (temp : ℚ)
  | hundredths (temp : ℚ)

/-- The event thread waits, is about to write one of its two marks, or copies
the chars to the head of a frame. -/
inductive Thread
  | wait
  | mark1
  | mark2
  | copy (head : Fin 4 → Option Copied)

/-- `temps` lists the samples taken and `stores` counts the stores of the main
loop; the program has neither. -/
structure State where
  txBuff : Fin 4 → Cell
  main : Main
  thread : Thread
  temps : List ℚ
  stores : ℕ
  sent : List (Fin 4 → Copied)

inductive Event
  | sample (temp : ℚ)
  | store
  | deliver
  | mark
  | copy (i : Fin 4)
  | send

def boot : State where
  txBuff i := ⟨initial i, 0⟩
  main := .wait
  thread := .wait
  temps := []
  stores := 0
  sent := []

def setChar (s : State) (i : Fin 4) (value : Int8) (sample : ℕ) : State :=
  { s with txBuff := Function.update s.txBuff i ⟨value, sample⟩ }

def sample (s : State) (temp : ℚ) : Option State :=
  match s.main with
  | .wait => some { s with main := .integer temp, temps := s.temps ++ [temp] }
  | _ => none

def store (s : State) : Option State :=
  match s.main with
  | .wait => none
  | .integer temp =>
    some { setChar s tx0 (temp1 temp) s.temps.length with
      main := .hundredths temp, stores := s.stores + 1 }
  | .hundredths temp =>
    some { setChar s tx3 (temp2 temp) s.temps.length with
      main := .wait, stores := s.stores + 1 }

def deliver (s : State) : Option State :=
  match s.thread with
  | .wait => some { s with thread := .mark1 }
  | _ => none

def mark (s : State) : Option State :=
  match s.thread with
  | .mark1 => some { setChar s tx1 1 0 with thread := .mark2 }
  | .mark2 => some { setChar s tx2 2 0 with thread := .copy fun _ => none }
  | _ => none

def copy (s : State) (i : Fin 4) : Option State :=
  match s.thread with
  | .copy head =>
    if head i = none then
      some { s with thread := .copy (Function.update head i (some ⟨s.txBuff i, s.stores⟩)) }
    else none
  | _ => none

def send (s : State) : Option State :=
  match s.thread with
  | .copy head =>
    if h : ∀ i, (head i).isSome then
      some { s with thread := .wait, sent := s.sent ++ [fun i => (head i).get (h i)] }
    else none
  | _ => none

def step (s : State) : Event → Option State
  | .sample temp => sample s temp
  | .store => store s
  | .deliver => deliver s
  | .mark => mark s
  | .copy i => copy s i
  | .send => send s

def Part (i : Fin 4) : Prop := i = tx0 ∨ i = tx3

/-- What the numbered sample has for a part; number zero is the initialisation. -/
def valueOf (temps : List ℚ) (i : Fin 4) : ℕ → Option Int8
  | 0 => some (initial i)
  | k + 1 => temps[k]?.map (if i = tx0 then temp1 else temp2)

def due (i : Fin 4) (clock : ℕ) : ℕ := if i = tx0 then (clock + 1) / 2 else clock / 2

structure Genuine (temps : List ℚ) (i : Fin 4) (c : Copied) : Prop where
  sample : c.cell.sample = due i c.clock
  value : valueOf temps i c.cell.sample = some c.cell.value

/-- The integer and the hundredths of the frame are those of one sample, or both
are the initial values. -/
def FromOneSample (temps : List ℚ) (f : Fin 4 → Copied) : Prop :=
  ∃ n, ∀ i, Part i → (f i).cell.sample = n ∧ valueOf temps i n = some (f i).cell.value

/-- The stores made before the integer and before the hundredths was copied are
those of equally many samples. -/
def InStep (f : Fin 4 → Copied) : Prop := ((f tx0).clock + 1) / 2 = (f tx3).clock / 2

/-- A head copied at one moment is in step unless a sample is half stored then. -/
theorem inStep_iff_even {f : Fin 4 → Copied} (h : (f tx0).clock = (f tx3).clock) :
    InStep f ↔ (f tx0).clock % 2 = 0 := by
  unfold InStep
  omega

theorem valueOf_append {temps : List ℚ} {i : Fin 4} {n : ℕ} {v : Int8} (more : List ℚ)
    (h : valueOf temps i n = some v) : valueOf (temps ++ more) i n = some v := by
  cases n with
  | zero => exact h
  | succ k =>
    obtain ⟨temp, hget, hv⟩ := Option.map_eq_some_iff.mp h
    have hlt : k < temps.length := (List.getElem?_eq_some_iff.mp hget).1
    rw [valueOf, List.getElem?_append_left hlt, hget]
    exact congrArg some hv

theorem Genuine.append {temps : List ℚ} {i : Fin 4} {c : Copied} (more : List ℚ)
    (h : Genuine temps i c) : Genuine (temps ++ more) i c :=
  ⟨h.sample, valueOf_append more h.value⟩

theorem FromOneSample.append {temps : List ℚ} {f : Fin 4 → Copied} (more : List ℚ)
    (h : FromOneSample temps f) : FromOneSample (temps ++ more) f := by
  obtain ⟨n, hn⟩ := h
  refine ⟨n, fun i hi => ?_⟩
  obtain ⟨hsample, hvalue⟩ := hn i hi
  exact ⟨hsample, valueOf_append more hvalue⟩

/-- Stores that do not complete a sample for the part leave a char genuine. -/
theorem Genuine.later {temps : List ℚ} {i : Fin 4} {cell : Cell} {clock later : ℕ}
    (h : Genuine temps i ⟨cell, clock⟩) (hdue : due i later = due i clock) :
    Genuine temps i ⟨cell, later⟩ :=
  ⟨h.sample.trans hdue.symm, h.value⟩

/-- The clocks tell whether two genuine bytes belong to one sample. -/
theorem fromOneSample_iff {temps : List ℚ} {f : Fin 4 → Copied}
    (h : ∀ i, Part i → Genuine temps i (f i)) : FromOneSample temps f ↔ InStep f := by
  have h0 : (f tx0).cell.sample = ((f tx0).clock + 1) / 2 := (h tx0 (Or.inl rfl)).sample
  have h3 : (f tx3).cell.sample = (f tx3).clock / 2 := (h tx3 (Or.inr rfl)).sample
  constructor
  · rintro ⟨n, hn⟩
    have hn0 := (hn tx0 (Or.inl rfl)).1
    have hn3 := (hn tx3 (Or.inr rfl)).1
    unfold InStep
    omega
  · intro hstep
    unfold InStep at hstep
    refine ⟨(f tx0).cell.sample, fun i hi => ?_⟩
    have heq : (f i).cell.sample = (f tx0).cell.sample := by
      rcases hi with rfl | rfl
      · rfl
      · omega
    exact ⟨heq, heq ▸ (h i hi).value⟩

def Last (temps : List ℚ) (temp : ℚ) : Prop :=
  0 < temps.length ∧ temps[temps.length - 1]? = some temp

def MainAt (s : State) : Prop :=
  match s.main with
  | .wait => s.stores = 2 * s.temps.length
  | .integer temp => s.stores + 2 = 2 * s.temps.length ∧ Last s.temps temp
  | .hundredths temp => s.stores + 1 = 2 * s.temps.length ∧ Last s.temps temp

structure Inv (s : State) : Prop where
  main : MainAt s
  chars : ∀ i, Part i → Genuine s.temps i ⟨s.txBuff i, s.stores⟩
  head : ∀ head, s.thread = .copy head → ∀ i c, Part i → head i = some c → Genuine s.temps i c
  sent : ∀ f ∈ s.sent, FromOneSample s.temps f

theorem inv_boot : Inv boot where
  main := rfl
  chars i hi := by rcases hi with rfl | rfl <;> exact ⟨rfl, rfl⟩
  head head h := by cases h
  sent f hf := by cases hf

theorem valueOf_last {temps : List ℚ} {temp : ℚ} (h : Last temps temp) (i : Fin 4) :
    valueOf temps i temps.length = some ((if i = tx0 then temp1 else temp2) temp) := by
  obtain ⟨hpos, hget⟩ := h
  obtain ⟨k, hk⟩ : ∃ k, temps.length = k + 1 := ⟨temps.length - 1, by omega⟩
  have hgetk : temps[k]? = some temp := by rwa [hk, Nat.add_sub_cancel] at hget
  rw [hk, valueOf, hgetk]
  rfl

theorem inv_sample {s t : State} {temp : ℚ} (hI : Inv s) (h : sample s temp = some t) : Inv t := by
  unfold sample at h
  split at h
  · rename_i hmain
    obtain rfl := Option.some.inj h
    have hstores : s.stores = 2 * s.temps.length := by
      have hat := hI.main
      rwa [MainAt, hmain] at hat
    refine ⟨⟨?_, ?_, ?_⟩, fun i hi => ?_, fun head hh i c hi hc => ?_, fun f hf => ?_⟩
    · simp only [List.length_append, List.length_singleton]
      omega
    · simp
    · simp
    · exact (hI.chars i hi).append _
    · exact (hI.head head hh i c hi hc).append _
    · exact (hI.sent f hf).append _
  · cases h

theorem inv_store {s t : State} (hI : Inv s) (h : store s = some t) : Inv t := by
  have hat := hI.main
  have h0 : Genuine s.temps tx0 ⟨s.txBuff tx0, s.stores⟩ := hI.chars tx0 (Or.inl rfl)
  have h3 : Genuine s.temps tx3 ⟨s.txBuff tx3, s.stores⟩ := hI.chars tx3 (Or.inr rfl)
  unfold store at h
  unfold MainAt at hat
  cases hm : s.main with
  | wait => simp [hm] at h
  | integer temp =>
    simp only [hm, Option.some.injEq] at h hat
    obtain ⟨hstores, hlast⟩ := hat
    subst h
    refine ⟨⟨by simp [setChar]; omega, hlast⟩, fun i hi => ?_, hI.head, hI.sent⟩
    rcases hi with rfl | rfl
    · refine ⟨?_, valueOf_last hlast tx0⟩
      change s.temps.length = (s.stores + 1 + 1) / 2
      omega
    · apply h3.later
      change (s.stores + 1) / 2 = s.stores / 2
      omega
  | hundredths temp =>
    simp only [hm, Option.some.injEq] at h hat
    obtain ⟨hstores, hlast⟩ := hat
    subst h
    refine ⟨hstores, fun i hi => ?_, hI.head, hI.sent⟩
    rcases hi with rfl | rfl
    · apply h0.later
      change (s.stores + 1 + 1) / 2 = (s.stores + 1) / 2
      omega
    · refine ⟨?_, valueOf_last hlast tx3⟩
      change s.temps.length = (s.stores + 1) / 2
      omega

theorem inv_deliver {s t : State} (hI : Inv s) (h : deliver s = some t) : Inv t := by
  unfold deliver at h
  split at h
  · obtain rfl := Option.some.inj h
    refine ⟨hI.main, hI.chars, fun head hh => ?_, hI.sent⟩
    cases hh
  · cases h

/-- A store to a char that is no part of the pair. -/
theorem chars_setChar {s : State} {j : Fin 4} (hI : Inv s) (hj : ¬ Part j) (value : Int8)
    (n : ℕ) (i : Fin 4) (hi : Part i) :
    Genuine s.temps i ⟨(setChar s j value n).txBuff i, s.stores⟩ := by
  have hne : i ≠ j := by
    rintro rfl
    exact hj hi
  simpa only [setChar, Function.update_of_ne hne] using hI.chars i hi

/-- The marks leave the pair alone, and the copy begins with no byte. -/
theorem inv_mark {s t : State} (hI : Inv s) (h : mark s = some t) : Inv t := by
  unfold mark at h
  split at h
  · obtain rfl := Option.some.inj h
    have hmark : ¬ Part tx1 := by simp [Part, tx0, tx1, tx3]
    refine ⟨hI.main, chars_setChar hI hmark 1 0, fun head hh => ?_, hI.sent⟩
    cases hh
  · obtain rfl := Option.some.inj h
    have hmark : ¬ Part tx2 := by simp [Part, tx0, tx2, tx3]
    refine ⟨hI.main, chars_setChar hI hmark 2 0, fun head hh i c hi hc => ?_, hI.sent⟩
    obtain rfl := Thread.copy.inj hh
    cases hc
  · cases h

theorem inv_copy {s t : State} {i : Fin 4} (hI : Inv s) (h : copy s i = some t) : Inv t := by
  unfold copy at h
  split at h
  · rename_i head hthread
    split at h
    · obtain rfl := Option.some.inj h
      refine ⟨hI.main, hI.chars, fun head' hh j c hj hc => ?_, hI.sent⟩
      obtain rfl := Thread.copy.inj hh
      by_cases hji : j = i
      · subst hji
        rw [Function.update_self, Option.some.injEq] at hc
        subst hc
        exact hI.chars j hj
      · rw [Function.update_of_ne hji] at hc
        exact hI.head head hthread j c hj hc
    · cases h
  · cases h

/-- A frame is sent with the head that was copied, all of whose parts are genuine. -/
theorem send_cases {s t : State} (hI : Inv s) (h : send s = some t) :
    ∃ f, s.thread = .copy (fun i => some (f i)) ∧ (∀ i, Part i → Genuine s.temps i (f i)) ∧
      t = { s with thread := .wait, sent := s.sent ++ [f] } := by
  unfold send at h
  split at h
  · rename_i head hthread
    split at h
    · rename_i hall
      obtain rfl := Option.some.inj h
      have hsome : head = fun i => some ((head i).get (hall i)) := by
        funext i
        exact (Option.some_get (hall i)).symm
      refine ⟨fun i => (head i).get (hall i), hthread.trans (congrArg Thread.copy hsome), ?_, rfl⟩
      intro i hi
      exact hI.head head hthread i _ hi (congrFun hsome i)
    · cases h
  · cases h

def SendsInStep (s : State) (e : Event) (_ : State) : Prop :=
  e = .send → ∀ f, s.thread = .copy (fun i => some (f i)) → InStep f

def Untorn (_ : State) (_ : Event) (t : State) : Prop :=
  ∀ f ∈ t.sent, FromOneSample t.temps f

theorem inv_step_of_ne {s t : State} {e : Event} (hI : Inv s) (h : step s e = some t)
    (he : e ≠ .send) : Inv t := by
  cases e with
  | sample temp => exact inv_sample hI h
  | store => exact inv_store hI h
  | deliver => exact inv_deliver hI h
  | mark => exact inv_mark hI h
  | copy i => exact inv_copy hI h
  | send => exact absurd rfl he

theorem step_law (s : State) (e : Event) (t : State) (hI : Inv s) (h : step s e = some t) :
    SendsInStep s e t ∧ Inv t ∧ Untorn s e t ∨ ¬ SendsInStep s e t ∧ ¬ Untorn s e t := by
  by_cases he : e = .send
  · subst he
    obtain ⟨f, hthread, hgenuine, rfl⟩ := send_cases hI h
    have hone := fromOneSample_iff hgenuine
    by_cases hstep : InStep f
    · have hsent : ∀ g ∈ s.sent ++ [f], FromOneSample s.temps g := by
        intro g hg
        rcases List.mem_append.mp hg with hg | hg
        · exact hI.sent g hg
        · obtain rfl := List.mem_singleton.mp hg
          exact hone.mpr hstep
      refine Or.inl ⟨fun _ g hg => ?_, ⟨hI.main, hI.chars, fun head hh => ?_, hsent⟩, hsent⟩
      · have hfg : f = g := by
          funext i
          exact Option.some.inj (congrFun (Thread.copy.inj (hthread.symm.trans hg)) i)
        exact hfg ▸ hstep
      · cases hh
    · refine Or.inr ⟨fun hall => hstep (hall rfl f hthread), fun hall => hstep (hone.mp ?_)⟩
      exact hall f (List.mem_append_right _ List.mem_cons_self)
  · have hIt := inv_step_of_ne hI h he
    exact Or.inl ⟨fun hs => absurd hs he, hIt, hIt.sent⟩

/-- In a run from the start every transmitted frame has its integer and its
hundredths from one sample exactly when every frame sent was copied in step with
the stores. -/
theorem untorn_iff (es : List Event) :
    AllSteps step Untorn boot es ↔ AllSteps step SendsInStep boot es :=
  allSteps_iff step step_law inv_boot

def torn : List Event :=
  [.sample (2499 / 100), .store, .store, .sample (2501 / 100), .store, .deliver, .mark, .mark,
    .copy tx0, .copy tx1, .copy tx2, .copy tx3, .send]

/-- The frame has the integer of the second sample with the hundredths of the first. -/
theorem torn_frame_sent : ¬ ∀ es, AllSteps step Untorn boot es := by
  intro hall
  have hsamples : (exec step boot torn).map (fun t => t.sent.map fun f =>
      ((f tx0).cell.sample, (f tx3).cell.sample)) = some [(2, 1)] := rfl
  obtain ⟨t, hrun, hsent⟩ := Option.map_eq_some_iff.mp hsamples
  have hone : ∀ f ∈ t.sent, FromOneSample t.temps f :=
    exec_of_allSteps step (I := fun s => ∀ f ∈ s.sent, FromOneSample s.temps f)
      (by simp [boot]) (hall torn) hrun
  obtain ⟨f, hf, hpair⟩ := List.mem_map.mp (hsent ▸ List.mem_cons_self)
  obtain ⟨n, hn⟩ := hone f hf
  obtain ⟨h0, h3⟩ := Prod.mk.inj hpair
  have hn0 := (hn tx0 (Or.inl rfl)).1
  have hn3 := (hn tx3 (Or.inr rfl)).1
  omega

end Fixed.TempSampling
