import Mathlib.Data.Int.Notation
import Mathlib.Data.List.Forall2
import Mathlib.Tactic.Common

/-!
The script that merges an accelerometer log with a gyroscope log. A row of the first
log is extended by the first row of the second one in the same second, if there is
one, and then seven columns of each row are written. So the script is a left join
exactly when every second of the first log occurs in the second one; at the first
row that is not extended it aborts in the middle of the line. The stamps are taken as
exact integers, as the quotients of the script are for stamps from zero up to 2^53.
-/
namespace Fixed.SensorMerge

structure Sample (V : Type*) where
  time : ℤ
  v1 : V
  v2 : V
  v3 : V

structure Row (V : Type*) where
  time : ℤ
  columns : List V

variable {V : Type*}

def parse (a : Sample V) : Row V := ⟨a.time, [a.v1, a.v2, a.v3]⟩

def second (time : ℤ) : ℤ := time.tdiv 1000000000

/-- The inner loop of the merge, which breaks at the first row of the same second. -/
def merge : List (Sample V) → Row V → Row V
  | [], row => row
  | g :: gyro, row =>
    if second row.time = second g.time then
      { row with columns := row.columns ++ [g.v1, g.v2, g.v3] }
    else merge gyro row

structure Written where
  pieces : List String
  completed : Bool

/-- The writes of the columns and of the end of the line, up to the first column that
is not there. -/
def writeColumns (str : V → String) : List (Option V) → Written
  | [] => ⟨["\n"], true⟩
  | none :: _ => ⟨[], false⟩
  | some v :: columns =>
    let w := writeColumns str columns
    ⟨str v :: " " :: w.pieces, w.completed⟩

def writeRow (str : V → String) (row : Row V) : Written :=
  let r := row.columns
  let w := writeColumns str [r[0]?, r[1]?, r[2]?, r[3]?, r[4]?, r[5]?]
  ⟨toString row.time :: " " :: w.pieces, w.completed⟩

def write (str : V → String) : List (Row V) → Written
  | [] => ⟨[], true⟩
  | row :: rows =>
    let w := writeRow str row
    if w.completed then
      let r := write str rows
      ⟨w.pieces ++ r.pieces, r.completed⟩
    else w

def script (str : V → String) (accel gyro : List (Sample V)) : Written :=
  write str (accel.map fun a => merge gyro (parse a))

def FirstInSecond (gyro : List (Sample V)) (a g : Sample V) : Prop :=
  ∃ before after, gyro = before ++ g :: after ∧ second g.time = second a.time ∧
    ∀ b ∈ before, second b.time ≠ second a.time

def line (str : V → String) (a g : Sample V) : List String :=
  [toString a.time, " ", str a.v1, " ", str a.v2, " ", str a.v3, " ",
    str g.v1, " ", str g.v2, " ", str g.v3, " ", "\n"]

/-- The script completes, and the file has one line for each row of the first log, in
order, joined with the first row in the same second. -/
structure LeftJoin (str : V → String) (accel gyro : List (Sample V)) (out : Written) : Prop where
  completed : out.completed = true
  lines : ∃ lines : List (List String), out.pieces = lines.flatten ∧
    List.Forall₂ (fun a l => ∃ g, FirstInSecond gyro a g ∧ l = line str a g) accel lines

def Covered (accel gyro : List (Sample V)) : Prop :=
  ∀ a ∈ accel, ∃ g ∈ gyro, second g.time = second a.time

theorem second_of_nonneg {time : ℤ} (h : 0 ≤ time) : second time = time / 1000000000 :=
  Int.tdiv_eq_ediv_of_nonneg h

/-- The inner loop stops at the first row of the second. -/
theorem merge_of_first {gyro : List (Sample V)} {a g : Sample V} (h : FirstInSecond gyro a g) :
    merge gyro (parse a) = ⟨a.time, [a.v1, a.v2, a.v3, g.v1, g.v2, g.v3]⟩ := by
  obtain ⟨before, after, rfl, hsame, hbefore⟩ := h
  induction before with
  | nil => simp only [List.nil_append, merge, parse, if_pos hsame.symm, List.cons_append]
  | cons b before ih =>
    have hne : second a.time ≠ second b.time := (hbefore b List.mem_cons_self).symm
    rw [List.cons_append, merge, parse, if_neg hne]
    exact ih fun b hb => hbefore b (List.mem_cons_of_mem _ hb)

theorem merge_of_none {gyro : List (Sample V)} {a : Sample V}
    (h : ∀ g ∈ gyro, second g.time ≠ second a.time) : merge gyro (parse a) = parse a := by
  induction gyro with
  | nil => rfl
  | cons g gyro ih =>
    have hne : second a.time ≠ second g.time := (h g List.mem_cons_self).symm
    rw [merge, parse, if_neg hne]
    exact ih fun g hg => h g (List.mem_cons_of_mem _ hg)

/-- A second that occurs has a first row. -/
theorem exists_first {gyro : List (Sample V)} {a : Sample V}
    (h : ∃ g ∈ gyro, second g.time = second a.time) : ∃ g, FirstInSecond gyro a g := by
  induction gyro with
  | nil =>
    obtain ⟨g, hg, -⟩ := h
    cases hg
  | cons b gyro ih =>
    by_cases hb : second b.time = second a.time
    · exact ⟨b, [], gyro, rfl, hb, fun _ hmem => absurd hmem List.not_mem_nil⟩
    · obtain ⟨g, hg, hsame⟩ := h
      rcases List.mem_cons.mp hg with rfl | hg
      · exact absurd hsame hb
      · obtain ⟨g', before, after, heq, hsame', hbefore⟩ := ih ⟨g, hg, hsame⟩
        refine ⟨g', b :: before, after, by rw [heq, List.cons_append], hsame', ?_⟩
        intro c hc
        rcases List.mem_cons.mp hc with rfl | hc
        · exact hb
        · exact hbefore c hc

section Writing

variable (str : V → String)

theorem writeRow_of_first {gyro : List (Sample V)} {a g : Sample V}
    (h : FirstInSecond gyro a g) :
    writeRow str (merge gyro (parse a)) = ⟨line str a g, true⟩ := by
  rw [merge_of_first h]
  rfl

/-- A row that has not been extended is given up before its fifth column. -/
theorem writeRow_of_none {gyro : List (Sample V)} {a : Sample V}
    (h : ∀ g ∈ gyro, second g.time ≠ second a.time) :
    writeRow str (merge gyro (parse a)) =
      ⟨[toString a.time, " ", str a.v1, " ", str a.v2, " ", str a.v3, " "], false⟩ := by
  rw [merge_of_none h]
  rfl

theorem script_cons_of_first {accel gyro : List (Sample V)} {a g : Sample V}
    (h : FirstInSecond gyro a g) : script str (a :: accel) gyro =
      ⟨line str a g ++ (script str accel gyro).pieces, (script str accel gyro).completed⟩ := by
  rw [script, List.map_cons, write, writeRow_of_first str h]
  rfl

theorem script_cons_of_none {accel gyro : List (Sample V)} {a : Sample V}
    (h : ∀ g ∈ gyro, second g.time ≠ second a.time) :
    (script str (a :: accel) gyro).completed = false := by
  rw [script, List.map_cons, write, writeRow_of_none str h]
  rfl

/-- A script that completes has found a row for every second. -/
theorem covered_of_completed {accel gyro : List (Sample V)}
    (h : (script str accel gyro).completed = true) : Covered accel gyro := by
  induction accel with
  | nil => exact fun a ha => absurd ha List.not_mem_nil
  | cons a accel ih =>
    by_cases hfound : ∃ g ∈ gyro, second g.time = second a.time
    · obtain ⟨g, hg⟩ := exists_first hfound
      rw [script_cons_of_first str hg] at h
      intro b hb
      rcases List.mem_cons.mp hb with rfl | hb
      · exact hfound
      · exact ih h b hb
    · have hnone : ∀ g ∈ gyro, second g.time ≠ second a.time := fun g hg hsame =>
        hfound ⟨g, hg, hsame⟩
      rw [script_cons_of_none str hnone] at h
      cases h

theorem leftJoin_of_covered {accel gyro : List (Sample V)} (h : Covered accel gyro) :
    LeftJoin str accel gyro (script str accel gyro) := by
  induction accel with
  | nil => exact ⟨rfl, [], rfl, List.Forall₂.nil⟩
  | cons a accel ih =>
    obtain ⟨g, hg⟩ := exists_first (h a List.mem_cons_self)
    obtain ⟨hcompleted, lines, hpieces, hlines⟩ := ih fun b hb => h b (List.mem_cons_of_mem _ hb)
    rw [script_cons_of_first str hg]
    refine ⟨hcompleted, line str a g :: lines, ?_, List.Forall₂.cons ⟨g, hg, rfl⟩ hlines⟩
    rw [List.flatten_cons, hpieces]

/-- The script is a left join exactly if every second of the first log occurs in the
second log. -/
theorem leftJoin_iff (accel gyro : List (Sample V)) :
    LeftJoin str accel gyro (script str accel gyro) ↔ Covered accel gyro := by
  constructor
  · intro h
    exact covered_of_completed str h.completed
  · exact leftJoin_of_covered str

end Writing

/-- The only row of the first log lies in a second without a row of the second log. -/
theorem gap_aborts : ¬ ∀ accel gyro : List (Sample ℕ),
    LeftJoin toString accel gyro (script toString accel gyro) := by
  intro hall
  have hjoin := hall [⟨1000000000, 1, 2, 3⟩] [⟨2000000000, 4, 5, 6⟩]
  obtain ⟨g, hg, hsame⟩ := covered_of_completed _ hjoin.completed _ List.mem_cons_self
  obtain rfl := List.mem_singleton.mp hg
  exact absurd hsame (by decide)

end Fixed.SensorMerge
