import Fixed.Loops
import Mathlib.Data.List.Chain
import Mathlib.Data.List.TakeWhile

/-!
The splitting of a command line into its words. `queryCommandVector` cuts the line
at its spaces, but where its pointer meets a space it goes on without moving it.
So the words are returned exactly for the lines that have no space at the front
and no two in a row; for any other line the loop never ends.
-/
namespace Fixed.CommandLine

open Loops

def space : UInt8 := 32

/-- The rest of a string from the first character `c` on. A string is given by its
characters before the NUL. -/
def strchr (s : List UInt8) (c : UInt8) : Option (List UInt8) :=
  match s.dropWhile (· ≠ c) with
  | [] => none
  | s2 => some s2

structure Scan where
  s1 : List UInt8
  vCommand : List (List UInt8)

def scanRound (s : Scan) : List (List UInt8) ⊕ Scan :=
  match s.s1 with
  | [] => .inl s.vCommand
  | c :: _ =>
    if c = space then .inr s
    else
      match strchr s.s1 space with
      | none => .inl (s.vCommand ++ [s.s1])
      | some s2 => .inr ⟨s2.tail, s.vCommand ++ [s.s1.take (s.s1.length - s2.length)]⟩

/-- The result, if the loop ends within the given number of rounds. -/
def queryCommandVector (rounds : ℕ) (cCmd : List UInt8) : Option (List (List UInt8)) :=
  iterate scanRound rounds ⟨cCmd, []⟩

def words (line : List UInt8) : List (List UInt8) := (line.splitOn space).filter (· ≠ [])

def SplitsExactly (cCmd : List UInt8) : Prop :=
  ∀ result, (∃ rounds, queryCommandVector rounds cCmd = some result) ↔ result = words cCmd

structure SingleSpaced (line : List UInt8) : Prop where
  front : line.head? ≠ some space
  apart : line.IsChain fun a b => ¬ (a = space ∧ b = space)

section Words

variable {word rest : List UInt8}

theorem words_nil : words [] = [] := rfl

theorem words_of_not_mem (hne : word ≠ []) (hword : space ∉ word) : words word = [word] := by
  rw [words, List.splitOn_eq_singleton hword, List.filter_singleton]
  simp [hne]

theorem words_append (hne : word ≠ []) (hword : space ∉ word) :
    words (word ++ space :: rest) = word :: words rest := by
  rw [words, List.splitOn_append_cons_self_of_not_mem hword, List.filter_cons]
  simp [hne, words]

theorem singleSpaced_of_not_mem (hword : space ∉ word) : SingleSpaced word where
  front h := hword (List.mem_of_mem_head? h)
  apart := by
    apply List.Pairwise.isChain
    apply List.Pairwise.imp_of_mem _ (List.pairwise_of_forall fun _ _ => trivial)
    rintro a b ha _ _ ⟨rfl, -⟩
    exact hword ha

theorem singleSpaced_append_iff (hne : word ≠ []) (hword : space ∉ word) :
    SingleSpaced (word ++ space :: rest) ↔ SingleSpaced rest := by
  have hchain := (singleSpaced_of_not_mem hword).apart
  constructor
  · intro hspaced
    obtain ⟨-, hapart⟩ := hspaced
    obtain ⟨-, hcons, -⟩ := List.isChain_append.mp hapart
    obtain ⟨hnext, hrest⟩ := List.isChain_cons.mp hcons
    exact ⟨fun h => hnext space h ⟨rfl, rfl⟩, hrest⟩
  · intro hspaced
    obtain ⟨hfront, hrest⟩ := hspaced
    refine ⟨?_, List.isChain_append.mpr ⟨hchain, List.isChain_cons.mpr ⟨?_, hrest⟩, ?_⟩⟩
    · rw [List.head?_append_of_ne_nil _ hne]
      exact fun h => hword (List.mem_of_mem_head? h)
    · rintro b hb ⟨-, rfl⟩
      exact hfront hb
    · rintro a ha b - ⟨rfl, -⟩
      exact hword (List.mem_of_mem_getLast? ha)

end Words

theorem strchr_of_not_mem {s : List UInt8} {c : UInt8} (h : c ∉ s) : strchr s c = none := by
  have hall : s.dropWhile (· ≠ c) = [] := by
    rw [List.dropWhile_eq_nil_iff]
    intro x hx
    simpa using fun hxc : x = c => h (hxc ▸ hx)
  simp only [strchr, hall]

theorem strchr_append {word : List UInt8} {c : UInt8} (h : c ∉ word) (rest : List UInt8) :
    strchr (word ++ c :: rest) c = some (c :: rest) := by
  have hdrop : (word ++ c :: rest).dropWhile (· ≠ c) = c :: rest := by
    rw [List.dropWhile_append_of_pos]
    · simp
    · intro x hx
      simpa using fun hxc : x = c => h (hxc ▸ hx)
  simp only [strchr, hdrop]

/-- A round at a string without a space is the last one. -/
theorem scanRound_last {s : Scan} (hword : space ∉ s.s1) :
    scanRound s = .inl (s.vCommand ++ words s.s1) := by
  cases h : s.s1 with
  | nil => simp only [scanRound, h, words_nil, List.append_nil]
  | cons c rest =>
    rw [h] at hword
    have hc : c ≠ space := fun hc => hword (hc ▸ List.mem_cons_self)
    simp only [scanRound, h, if_neg hc, strchr_of_not_mem hword,
      words_of_not_mem (List.cons_ne_nil c rest) hword]

/-- A round at a word with a space behind it goes on behind that space. -/
theorem scanRound_word {s : Scan} {word rest : List UInt8} (hne : word ≠ [])
    (hword : space ∉ word) (h : s.s1 = word ++ space :: rest) :
    scanRound s = .inr ⟨rest, s.vCommand ++ [word]⟩ := by
  obtain ⟨c, more, rfl⟩ := List.exists_cons_of_ne_nil hne
  have hc : c ≠ space := fun hc => hword (hc ▸ List.mem_cons_self)
  have hstr := strchr_append hword rest
  rw [List.cons_append] at h hstr
  have hlen : (c :: (more ++ space :: rest)).length - (space :: rest).length =
      (c :: more).length := by
    simp only [List.length_cons, List.length_append]
    omega
  simp only [scanRound, h, if_neg hc, hstr, hlen, List.tail_cons]
  rw [← List.cons_append, List.take_left]

/-- A round at a space changes nothing. -/
theorem scanRound_space {s : Scan} {rest : List UInt8} (h : s.s1 = space :: rest) :
    scanRound s = .inr s := by
  simp only [scanRound, h, if_pos]

/-- Where the pointer may be. -/
theorem scan_cases (s1 : List UInt8) : space ∉ s1 ∨ (∃ rest, s1 = space :: rest) ∨
    ∃ word rest, word ≠ [] ∧ space ∉ word ∧ s1 = word ++ space :: rest := by
  by_cases hmem : space ∈ s1
  · obtain ⟨word, rest, rfl, hword⟩ := List.eq_append_cons_of_mem hmem
    refine Or.inr ?_
    cases word with
    | nil => exact Or.inl ⟨rest, rfl⟩
    | cons c more => exact Or.inr ⟨c :: more, rest, List.cons_ne_nil c more, hword, rfl⟩
  · exact Or.inl hmem

/-- The words split off so far and those of the rest are the words of the line. -/
theorem scan_leaves {s : Scan} (hs : SingleSpaced s.s1) :
    Leaves scanRound s (s.vCommand ++ words s.s1) := by
  induction hlen : s.s1.length using Nat.strong_induction_on generalizing s with
  | h n ih =>
    rcases scan_cases s.s1 with hword | ⟨rest, hrest⟩ | ⟨word, rest, hne, hword, hline⟩
    · exact (leaves_of_leaves (scanRound_last hword)).mpr rfl
    · exact absurd (by rw [hrest]; rfl) hs.front
    · rw [hline, singleSpaced_append_iff hne hword] at hs
      have hshort : rest.length < n := by
        rw [← hlen, hline, List.length_append, List.length_cons]
        omega
      have hnext := ih rest.length hshort (s := ⟨rest, s.vCommand ++ [word]⟩) hs rfl
      rw [leaves_of_goes_on (scanRound_word hne hword hline), hline, words_append hne hword]
      rwa [List.append_assoc] at hnext

/-- From any other line the pointer gets to a space it never leaves. -/
theorem scan_not_halts {s : Scan} (hs : ¬ SingleSpaced s.s1) : ¬ Halts scanRound s := by
  apply not_halts_of_invariant (fun s => ¬ SingleSpaced s.s1) _ hs
  intro s hs
  rcases scan_cases s.s1 with hword | ⟨rest, hrest⟩ | ⟨word, rest, hne, hword, hline⟩
  · exact absurd (singleSpaced_of_not_mem hword) hs
  · exact ⟨s, scanRound_space hrest, hs⟩
  · refine ⟨_, scanRound_word hne hword hline, ?_⟩
    rwa [hline, singleSpaced_append_iff hne hword] at hs

/-- `queryCommandVector` ends with the words of the line exactly when the line has no
space at the front and no two in a row. -/
theorem splitsExactly_iff (cCmd : List UInt8) : SplitsExactly cCmd ↔ SingleSpaced cCmd := by
  constructor
  · intro hsplit
    by_contra hspaced
    obtain ⟨rounds, hrounds⟩ := (hsplit (words cCmd)).mpr rfl
    exact scan_not_halts (s := ⟨cCmd, []⟩) hspaced ⟨rounds, words cCmd, hrounds⟩
  · intro hspaced result
    have hleaves := scan_leaves (s := ⟨cCmd, []⟩) hspaced
    rw [List.nil_append] at hleaves
    constructor
    · intro hresult
      exact leaves_unique hresult hleaves
    · intro hresult
      subst hresult
      exact hleaves

/-- A line that begins with a space, as in ` ls`, is never split. -/
theorem leading_space_never_split : ¬ ∀ cCmd, SplitsExactly cCmd := by
  intro hall
  have hspaced : ¬ SingleSpaced [32, 108, 115] := fun h => h.front rfl
  obtain ⟨rounds, hrounds⟩ := (hall [32, 108, 115] (words [32, 108, 115])).mpr rfl
  exact scan_not_halts (s := ⟨[32, 108, 115], []⟩) hspaced ⟨rounds, _, hrounds⟩

end Fixed.CommandLine
