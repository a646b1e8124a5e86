import Fixed.MachineInt
import Fixed.StreamClient

/-!
What the argument check of `testPCClient` is worth. The client goes on with any
image size and frame rate that are not negative, after the image size has been
multiplied. The multiplication, the accesses to its buffer and the division by the
frame rate are safe exactly for the accepted command lines with an image of at least
eight kilobytes whose size fits an `int`, and a frame rate other than zero.
-/
namespace Fixed.ClientAdmission

open MachineInt

/-- The arguments of the program, with what `atoi` makes of the first two. -/
structure Args where
  argc : ℤ
  kb : ℤ
  fps : ℤ
  kb_int : InInt kb
  fps_int : InInt fps

def Args.imagesize (a : Args) : ℤ := int (StreamClient.imagesize a.kb)

def Args.Accepted (a : Args) : Prop := a.argc = 4 ∧ 0 ≤ a.imagesize ∧ 0 ≤ a.fps

instance (a : Args) : Decidable a.Accepted := inferInstanceAs (Decidable (_ ∧ _ ∧ _))

inductive Action
  | multiply (a b : ℤ)
  | memset (n : ℤ)
  | store (i : ℤ)
  | send (n : ℤ)
  | divide (a b : ℤ)
deriving DecidableEq, Repr

/-- The product fits, the bytes lie in the buffer, the divisor is not zero. -/
def Action.Safe (imagesize : ℤ) : Action → Prop
  | .multiply a b => InInt (a * b)
  | .memset n => n ≤ imagesize
  | .store i => i < imagesize
  | .send n => n ≤ imagesize
  | .divide _ b => b ≠ 0

/-- What the program does behind a successful `malloc`: `rounds` of its endless loop
are run if it can connect. -/
def stream (a : Args) (sockfd : ℤ) (rounds : ℕ) : List Action :=
  .memset a.imagesize ::
    if sockfd < 0 then []
    else [.store 0, .store 1, .store 2, .send 8192, .divide 1000000 a.fps] ++
      List.replicate rounds (.send a.imagesize)

def main (a : Args) (malloc : Bool) (sockfd : ℤ) (rounds : ℕ) : List Action :=
  if a.argc ≠ 4 then []
  else .multiply a.kb 1024 ::
    if a.imagesize < 0 ∨ a.fps < 0 then []
    else if malloc then stream a sockfd rounds
    else []

def SafeArithmetic (a : Args) : Prop :=
  ∀ malloc sockfd rounds, ∀ act ∈ main a malloc sockfd rounds, act.Safe a.imagesize

/-- The image has at least the size of the header message, in an `int`, and the frame
rate divides. -/
structure Suffices (a : Args) : Prop where
  header : 8 ≤ a.kb
  fits : a.kb ≤ 2097151
  rate : a.fps ≠ 0

theorem imagesize_of_suffices {a : Args} (h : Suffices a) :
    InInt (a.kb * 1024) ∧ a.imagesize = a.kb * 1024 := by
  have hlo := h.header
  have hhi := h.fits
  have hin : InInt (a.kb * 1024) := ⟨by omega, by omega⟩
  exact ⟨hin, int_of_inInt hin⟩

theorem main_of_accepted {a : Args} (h : a.Accepted) (malloc : Bool) (sockfd : ℤ) (rounds : ℕ) :
    main a malloc sockfd rounds =
      .multiply a.kb 1024 :: if malloc then stream a sockfd rounds else [] := by
  obtain ⟨hargc, hsize, hfps⟩ := h
  have hargc' : ¬ a.argc ≠ 4 := not_not.mpr hargc
  have hneg : ¬ (a.imagesize < 0 ∨ a.fps < 0) := by omega
  rw [main, if_neg hargc', if_neg hneg]

theorem stream_safe {a : Args} (h : Suffices a) (sockfd : ℤ) (rounds : ℕ) :
    ∀ act ∈ stream a sockfd rounds, act.Safe a.imagesize := by
  obtain ⟨-, hsize⟩ := imagesize_of_suffices h
  have hlo := h.header
  intro act hact
  rcases List.mem_cons.mp hact with rfl | hact
  · exact Int.le_refl _
  · split at hact
    · cases hact
    · rcases List.mem_append.mp hact with hact | hact
      · simp only [List.mem_cons, List.not_mem_nil, or_false] at hact
        rcases hact with rfl | rfl | rfl | rfl | rfl
        · simp only [Action.Safe]
          omega
        · simp only [Action.Safe]
          omega
        · simp only [Action.Safe]
          omega
        · simp only [Action.Safe]
          omega
        · exact h.rate
      · obtain rfl := List.eq_of_mem_replicate hact
        exact Int.le_refl _

theorem suffices_of_safe {a : Args} (hacc : a.Accepted) (h : SafeArithmetic a) : Suffices a := by
  have hrun := h true 0 0
  rw [main_of_accepted hacc, if_pos rfl] at hrun
  have hproduct : InInt (a.kb * 1024) := hrun (.multiply a.kb 1024) List.mem_cons_self
  have hsend : (8192 : ℤ) ≤ a.imagesize := hrun (.send 8192) (by simp [stream])
  have hrate : a.fps ≠ 0 := hrun (.divide 1000000 a.fps) (by simp [stream])
  have hsize : a.imagesize = a.kb * 1024 := int_of_inInt hproduct
  obtain ⟨-, hhi⟩ := hproduct
  exact ⟨by omega, by omega, hrate⟩

/-- For an accepted command line the arithmetic is safe exactly if the image has
between 8 and 2097151 kilobytes and the frame rate is not zero. -/
theorem safeArithmetic_iff (a : Args) (hacc : a.Accepted) : SafeArithmetic a ↔ Suffices a := by
  constructor
  · exact suffices_of_safe hacc
  · intro h malloc sockfd rounds act hact
    rw [main_of_accepted hacc] at hact
    rcases List.mem_cons.mp hact with rfl | hact
    · exact (imagesize_of_suffices h).1
    · split at hact
      · exact stream_safe h sockfd rounds act hact
      · cases hact

def usual : Args := ⟨4, 100, 30, by decide, by decide⟩

theorem safeArithmetic_usual : SafeArithmetic usual :=
  (safeArithmetic_iff usual (by decide)).mpr ⟨by decide, by decide, by decide⟩

/-- The command line `0 0 c` is accepted; the header message is read from a buffer
without a byte, and the frame rate divides by zero. -/
theorem accepts_empty_image : ¬ ∀ a : Args, a.Accepted → SafeArithmetic a := by
  intro hall
  have hacc : Args.Accepted ⟨4, 0, 0, by decide, by decide⟩ := by decide
  have hsafe := suffices_of_safe hacc (hall _ hacc)
  exact absurd hsafe.header (by decide)

end Fixed.ClientAdmission
