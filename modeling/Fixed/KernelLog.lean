import Fixed.ByteFile
import Fixed.Runs
import Mathlib.Logic.Function.Basic

/-!
The kernel's log writer. `write_logo` keeps the file in a global pointer, which it
opens only when that is null, tests with `IS_ERR`, and clears only after a write.
An open that fails leaves its error in the pointer, and no later call gets past
it. Over a sequence of calls the pointer is null after each and each appends its
bytes exactly when every open succeeds and every write is complete.
-/
namespace Fixed.KernelLog

open ByteFile Runs

/-- The global `file`: null, an error of `filp_open`, or an open file. -/
inductive FilePtr
  | null
  | err
  | opened (path : String)
deriving DecidableEq, Repr

structure Kernel where
  file : FilePtr
  content : String → List UInt8

/-- The arguments of a call, whether the path can be opened meanwhile, and how many
bytes a write is ready to move, with `none` for a failing one. -/
structure Call where
  path : String
  buf : ℕ → UInt8
  len : ℤ
  opens : Bool
  moved : Option ℕ

def filp_open (c : Call) : FilePtr := if c.opens then .opened c.path else .err

/-- The number of bytes `vfs_write` writes; a negative length is refused. -/
def vfs_write (c : Call) : ℕ := (c.moved.map (min c.len.toNat)).getD 0

def Call.bytes (c : Call) : List UInt8 := block c.buf 0 c.len.toNat

/-- The file was opened with `O_APPEND`. -/
def append (content : String → List UInt8) (path : String) (bs : List UInt8) :
    String → List UInt8 :=
  Function.update content path (content path ++ bs)

def write_logo (s : Kernel) (c : Call) : ℤ × Kernel :=
  let file := if s.file = .null then filp_open c else s.file
  match file with
  | .opened path => (0, ⟨.null, append s.content path (block c.buf 0 (vfs_write c))⟩)
  | file => (0, { s with file := file })

def step (s : Kernel) (c : Call) : Option Kernel := some (write_logo s c).2

def boot (content : String → List UInt8) : Kernel := ⟨.null, content⟩

/-- The pointer is null when the call returns, and with a path that can be opened
exactly the bytes of the call are appended. -/
structure Recovers (s : Kernel) (c : Call) (t : Kernel) : Prop where
  file : t.file = .null
  appended : c.opens = true → t.content = append s.content c.path c.bytes

def Completes (_ : Kernel) (c : Call) (_ : Kernel) : Prop :=
  c.opens = true ∧ vfs_write c = c.len.toNat

section Calls

variable {s t : Kernel} {c : Call}

theorem write_logo_ok (hs : s.file = .null) (hc : c.opens = true) :
    (write_logo s c).2 = ⟨.null, append s.content c.path (block c.buf 0 (vfs_write c))⟩ := by
  simp [write_logo, hs, filp_open, hc]

theorem write_logo_err (hs : s.file = .null) (hc : c.opens = false) :
    (write_logo s c).2 = { s with file := .err } := by
  simp [write_logo, hs, filp_open, hc]

theorem write_logo_stuck (hs : s.file = .err) : (write_logo s c).2 = s := by
  cases s
  simp only at hs
  subst hs
  simp [write_logo]

/-- Once an open has failed, no call logs anything, whether its path can be opened. -/
theorem stuck_after_error {cs : List Call} (hs : s.file = .err) (hrun : exec step s cs = some t) :
    t = s := by
  induction cs with
  | nil => exact (Option.some.inj hrun).symm
  | cons c cs ih =>
    obtain ⟨m, hm, hrest⟩ := (exec_cons_eq_some step).mp hrun
    have hkeep : m = s := by
      rw [← Option.some.inj hm]
      exact write_logo_stuck hs
    exact ih (hkeep ▸ hrest)

/-- Appending is right only with the right number of bytes. -/
theorem append_block_inj {content : String → List UInt8} {path : String} {m n : ℕ}
    {buf : ℕ → UInt8}
    (h : append content path (block buf 0 m) = append content path (block buf 0 n)) : m = n := by
  have hpath := congrArg List.length (congrFun h path)
  simp only [append, Function.update_self, List.length_append, length_block] at hpath
  omega

theorem step_law (s : Kernel) (c : Call) (t : Kernel) (hs : s.file = .null)
    (h : step s c = some t) :
    Completes s c t ∧ t.file = .null ∧ Recovers s c t ∨ ¬ Completes s c t ∧ ¬ Recovers s c t := by
  obtain rfl := Option.some.inj h
  cases hc : c.opens with
  | true =>
    have hok := write_logo_ok hs hc
    by_cases hall : vfs_write c = c.len.toNat
    · refine Or.inl ⟨⟨hc, hall⟩, by rw [hok], by rw [hok], fun _ => ?_⟩
      rw [hok, Call.bytes, hall]
    · refine Or.inr ⟨fun hcomplete => hall hcomplete.2, fun hrecovers => hall ?_⟩
      have happ := hrecovers.appended hc
      rw [hok] at happ
      exact append_block_inj happ
  | false =>
    have herr := write_logo_err hs hc
    refine Or.inr ⟨fun hcomplete => ?_, fun hrecovers => ?_⟩
    · have hopens := hcomplete.1
      rw [hc] at hopens
      cases hopens
    · have hnull := hrecovers.file
      rw [herr] at hnull
      cases hnull

end Calls

/-- From boot, whatever the files hold, every call of a sequence recovers exactly
when in every call the open succeeds and the write is complete. -/
theorem recovers_iff (content : String → List UInt8) (cs : List Call) :
    AllSteps step Recovers (boot content) cs ↔ AllSteps step Completes (boot content) cs :=
  allSteps_iff step step_law rfl

def mountedLate : List Call :=
  [⟨"/data/log", fun _ => 65, 1, false, some 1⟩, ⟨"/data/log", fun _ => 65, 1, true, some 1⟩]

/-- The second call appends nothing. -/
theorem mounted_late_never_logs : ¬ ∀ content cs, AllSteps step Recovers (boot content) cs := by
  intro hall
  obtain ⟨-, hrest⟩ := hall (fun _ => []) mountedLate _ rfl
  obtain ⟨hsecond, -⟩ := hrest _ rfl
  have hlog := congrArg List.length (congrFun (hsecond.appended rfl) "/data/log")
  simp [append, Call.bytes, write_logo, boot, filp_open] at hlog

end Fixed.KernelLog
