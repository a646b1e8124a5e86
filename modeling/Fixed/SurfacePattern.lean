import Mathlib.Data.List.Count
import Mathlib.Data.List.Range
import Mathlib.Logic.Function.Basic
import Mathlib.Tactic.Ring
import Mathlib.Tactic.SplitIfs

/-!
The test pattern of `initSurface`. Two nested loops take a pointer through the
surface pixel by pixel, each pixel exactly once. The outer counter chooses the
colour, but it advances only once in a whole column height of pixels, while the
pointer runs along the rows. So the bars stand upright exactly when the surface
is too narrow for the first bar or has a single row.
-/
namespace Fixed.SurfacePattern

def black : UInt16 := 0x0

def white : UInt16 := 0xffff

def colour (i : ℕ) : UInt16 :=
  if 100 < i ∧ i < 110 then black
  else if 200 < i ∧ i < 210 then black
  else if 300 < i ∧ i < 310 then black
  else if 400 < i ∧ i < 410 then black
  else if 500 < i ∧ i < 510 then black
  else if 600 < i ∧ i < 610 then black
  else if 700 < i ∧ i < 710 then black
  else white

/-- The pointer and the pixels. `written` lists the pixels written so far, which the
program does not. -/
structure Surface where
  ptr : ℕ
  bits : ℕ → UInt16
  written : List ℕ

def put (c : UInt16) (s : Surface) : Surface where
  ptr := s.ptr + 1
  bits := Function.update s.bits s.ptr c
  written := s.written ++ [s.ptr]

def fillInner (displayHeight i : ℕ) (s : Surface) : Surface :=
  (List.range displayHeight).foldl (fun s _ => put (colour i) s) s

/-- The two loops of `initSurface`, over pixels of any former colour. -/
def initSurface (displayWidth displayHeight : ℕ) (bits : ℕ → UInt16) : Surface :=
  (List.range displayWidth).foldl (fun s i => fillInner displayHeight i s) ⟨0, bits, []⟩

def InBar (x : ℕ) : Prop := ∃ k, 1 ≤ k ∧ k ≤ 7 ∧ 100 * k < x ∧ x < 100 * k + 10

/-- Every pixel of the surface is written once and no other one, and the colour of a
pixel is told by its column. -/
structure VerticalBars (W H : ℕ) (bits : ℕ → UInt16) : Prop where
  covers : ∀ k, (initSurface W H bits).written.count k = if k < W * H then 1 else 0
  bar : ∀ x y, x < W → y < H → InBar x → (initSurface W H bits).bits (y * W + x) = black
  ground : ∀ x y, x < W → y < H → ¬ InBar x → (initSurface W H bits).bits (y * W + x) = white

theorem colour_of_inBar {i : ℕ} (h : InBar i) : colour i = black := by
  obtain ⟨k, hlo, hhi, hleft, hright⟩ := h
  unfold colour
  split_ifs with h1 h2 h3 h4 h5 h6 h7
  all_goals first | rfl | omega

theorem colour_of_not_inBar {i : ℕ} (h : ¬ InBar i) : colour i = white := by
  have hbar : ∀ k, 1 ≤ k → k ≤ 7 → ¬ (100 * k < i ∧ i < 100 * k + 10) := by
    intro k hlo hhi hin
    exact h ⟨k, hlo, hhi, hin.1, hin.2⟩
  have h1 := hbar 1 (by omega) (by omega)
  have h2 := hbar 2 (by omega) (by omega)
  have h3 := hbar 3 (by omega) (by omega)
  have h4 := hbar 4 (by omega) (by omega)
  have h5 := hbar 5 (by omega) (by omega)
  have h6 := hbar 6 (by omega) (by omega)
  have h7 := hbar 7 (by omega) (by omega)
  simp only [colour, if_neg h1, if_neg h2, if_neg h3, if_neg h4, if_neg h5, if_neg h6, if_neg h7]

/-- What the inner loop has done after `n` rounds. -/
theorem fillInner_spec (n i : ℕ) (s : Surface) :
    (fillInner n i s).ptr = s.ptr + n ∧
      (fillInner n i s).written = s.written ++ List.range' s.ptr n ∧
      ∀ k, (fillInner n i s).bits k =
        if s.ptr ≤ k ∧ k < s.ptr + n then colour i else s.bits k := by
  induction n with
  | zero => simp [fillInner]
  | succ n ih =>
    obtain ⟨hptr, hwritten, hbits⟩ := ih
    have hnext : fillInner (n + 1) i s = put (colour i) (fillInner n i s) := by
      rw [fillInner, List.range_succ, List.foldl_append]
      rfl
    rw [hnext]
    refine ⟨?_, ?_, fun k => ?_⟩
    · simp only [put, hptr]
      omega
    · simp only [put, hptr, hwritten]
      rw [List.range'_concat, Nat.one_mul, List.append_assoc]
    · by_cases hk : k = s.ptr + n
      · subst hk
        simp only [put, hptr, Function.update_self]
        rw [if_pos ⟨by omega, by omega⟩]
      · simp only [put, hptr, Function.update_of_ne hk, hbits]
        by_cases hin : s.ptr ≤ k ∧ k < s.ptr + n
        · rw [if_pos hin, if_pos ⟨hin.1, by omega⟩]
        · rw [if_neg hin, if_neg (by omega)]

/-- What the outer loop has done after `n` rounds: the linear index tells the colour. -/
theorem initSurface_spec (n H : ℕ) (bits : ℕ → UInt16) :
    (initSurface n H bits).ptr = n * H ∧
      (initSurface n H bits).written = List.range (n * H) ∧
      ∀ k, (initSurface n H bits).bits k = if k < n * H then colour (k / H) else bits k := by
  induction n with
  | zero => simp [initSurface]
  | succ n ih =>
    obtain ⟨hptr, hwritten, hbits⟩ := ih
    have hnext : initSurface (n + 1) H bits = fillInner H n (initSurface n H bits) := by
      rw [initSurface, List.range_succ, List.foldl_append]
      rfl
    obtain ⟨hptr', hwritten', hbits'⟩ := fillInner_spec H n (initSurface n H bits)
    rw [hptr] at hptr' hwritten' hbits'
    have hsize : (n + 1) * H = n * H + H := by ring
    rw [hnext, hsize]
    refine ⟨hptr', ?_, fun k => ?_⟩
    · have happ := List.range'_append_1 (s := 0) (m := n * H) (n := H)
      rw [Nat.zero_add] at happ
      rw [hwritten', hwritten, List.range_eq_range', List.range_eq_range']
      exact happ
    · rw [hbits', hbits]
      by_cases hlt : k < n * H
      · rw [if_neg (by omega), if_pos hlt, if_pos (by omega)]
      · by_cases hin : k < n * H + H
        · have hquot : k / H = n :=
            Nat.div_eq_of_lt_le (not_lt.mp hlt) (hsize ▸ hin)
          rw [if_pos ⟨not_lt.mp hlt, hin⟩, if_pos hin, hquot]
        · rw [if_neg (by omega), if_neg hlt, if_neg hin]

section Pattern

variable {W H : ℕ} (bits : ℕ → UInt16)

/-- Every pixel is written once, whatever the size. -/
theorem initSurface_covers (W H k : ℕ) :
    (initSurface W H bits).written.count k = if k < W * H then 1 else 0 := by
  obtain ⟨-, hwritten, -⟩ := initSurface_spec W H bits
  rw [hwritten, List.Nodup.count List.nodup_range]
  simp only [List.mem_range]

theorem pixel_lt {x y : ℕ} (hx : x < W) (hy : y < H) : y * W + x < W * H := by
  have hrow : (y + 1) * W ≤ H * W := Nat.mul_le_mul_right W hy
  rw [Nat.add_mul, Nat.one_mul] at hrow
  rw [Nat.mul_comm W H]
  omega

/-- The colour of a pixel is that of its linear index divided by the height. -/
theorem initSurface_pixel {x y : ℕ} (hx : x < W) (hy : y < H) :
    (initSurface W H bits).bits (y * W + x) = colour ((y * W + x) / H) := by
  obtain ⟨-, -, hbits⟩ := initSurface_spec W H bits
  rw [hbits, if_pos (pixel_lt hx hy)]

theorem not_inBar_of_lt {i : ℕ} (hi : i ≤ 100) : ¬ InBar i := by
  intro hbar
  obtain ⟨k, hlo, -, hleft, -⟩ := hbar
  omega

theorem inBar_first : InBar 101 := ⟨1, by omega, by omega, by omega, by omega⟩

/-- With a second row the first bar is not where its column is. -/
theorem not_verticalBars (hW : 101 < W) (hH : 1 < H) : ¬ VerticalBars W H bits := by
  intro h
  have hblack := h.bar 101 0 hW (by omega) inBar_first
  have hhalf : (0 * W + 101) / H ≤ 100 := by
    rw [Nat.zero_mul, Nat.zero_add]
    have hdiv : 101 / H ≤ 101 / 2 := Nat.div_le_div_left hH (by omega)
    omega
  rw [initSurface_pixel bits hW (by omega), colour_of_not_inBar (not_inBar_of_lt hhalf)] at hblack
  exact absurd hblack (by decide)

/-- The fill loops draw vertical bars exactly on surfaces that end before the first
bar or have at most one row. -/
theorem verticalBars_iff (W H : ℕ) (bits : ℕ → UInt16) :
    VerticalBars W H bits ↔ W ≤ 101 ∨ H ≤ 1 := by
  constructor
  · intro h
    by_contra hnot
    simp only [not_or, not_le] at hnot
    exact not_verticalBars bits hnot.1 hnot.2 h
  · intro hsize
    -- In either case the loops take the colour of the pixel's own column.
    have hcolour : ∀ x y, x < W → y < H → (initSurface W H bits).bits (y * W + x) = colour x := by
      intro x y hx hy
      rw [initSurface_pixel bits hx hy]
      rcases hsize with hnarrow | hflat
      · have hquot : (y * W + x) / H < W := Nat.div_lt_of_lt_mul (Nat.mul_comm W H ▸ pixel_lt hx hy)
        rw [colour_of_not_inBar (not_inBar_of_lt (by omega)),
          colour_of_not_inBar (not_inBar_of_lt (by omega))]
      · have hrow : y = 0 := by omega
        have hone : H = 1 := by omega
        rw [hrow, hone, Nat.zero_mul, Nat.zero_add, Nat.div_one]
    refine ⟨initSurface_covers bits W H, fun x y hx hy hbar => ?_, fun x y hx hy hbar => ?_⟩
    · rw [hcolour x y hx hy, colour_of_inBar hbar]
    · rw [hcolour x y hx hy, colour_of_not_inBar hbar]

/-- On a panel of 1080 by 1920 pixels the bars lie on their side. -/
theorem bars_not_vertical : ¬ ∀ W H bits, 0 < W → 0 < H → VerticalBars W H bits := by
  intro hall
  exact not_verticalBars (fun _ => 0) (by omega) (by omega)
    (hall 1080 1920 (fun _ => 0) (by omega) (by omega))

end Pattern

end Fixed.SurfacePattern
