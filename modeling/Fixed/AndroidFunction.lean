import Mathlib.Logic.Function.Basic
import Fixed.ObjectLedger

/-!
The loopback function of the Android gadget: what `android.c` and the
allocation half of `f_loopback.c` allocate and release. Whether an allocation
succeeds, what `usb_add_function` answers and whether it links the function to
its instance is decided outside this repository. `usb_put_function` and
`usb_put_function_instance` ignore null and call the object's own free
function.
-/
namespace Fixed.AndroidFunction

open ObjectLedger

def ENOMEM : ℤ := 12

structure FunctionfsConfig where
  func : Ptr
  fi : Ptr

structure Driver where
  /-- `config` of the `android_usb_function`. -/
  f_config : Ptr
  bound : Bool
  config : ℕ → FunctionfsConfig
  /-- `refcnt` of the instances. -/
  refcnt : ℕ → ℤ
  /-- `fi` of the functions. -/
  fi : ℕ → Ptr
  configs : Ledger
  instances : Ledger
  functions : Ledger
  /-- A pointer that is not to an instance was followed. -/
  crashed : Bool
  /-- The last clean-up is done. -/
  cleaned : Bool

structure BindOutcome where
  kzalloc : Bool
  alloc_instance : Bool
  alloc : Bool
  usb_add_function : ℤ
  /-- `usb_add_function` has set `fi` of the function; the driver itself never does. -/
  linked : Bool

def loopback_alloc_instance (s : Driver) (ok : Bool) : Ptr × Driver :=
  if ok then
    (.obj s.instances.made, { s with
      instances := s.instances.alloc
      refcnt := Function.update s.refcnt s.instances.made 0 })
  else (.err (-ENOMEM), s)

/-- The function is zeroed, so its `fi` is null. -/
def loopback_alloc (s : Driver) (m : ℕ) (ok : Bool) : Ptr × Driver :=
  if ok then
    (.obj s.functions.made, { s with
      functions := s.functions.alloc
      fi := Function.update s.fi s.functions.made .null
      refcnt := Function.update s.refcnt m (s.refcnt m + 1) })
  else (.err (-ENOMEM), s)

def lb_free_func (s : Driver) (n : ℕ) : Driver :=
  match s.fi n with
  | .obj m => { s with
      refcnt := Function.update s.refcnt m (s.refcnt m - 1)
      functions := s.functions.release (.obj n) }
  | _ => { s with crashed := true }

def usb_put_function (s : Driver) : Ptr → Driver
  | .obj n => lb_free_func s n
  | p => { s with functions := s.functions.release p }

def usb_put_function_instance (s : Driver) (p : Ptr) : Driver :=
  { s with instances := s.instances.release p }

def usb_add_function (s : Driver) (m k : ℕ) (o : BindOutcome) : ℤ × Driver :=
  (o.usb_add_function,
    { s with fi := if o.linked then Function.update s.fi k (.obj m) else s.fi })

def Driver.setConfig (s : Driver) (n : ℕ) (g : FunctionfsConfig → FunctionfsConfig) : Driver :=
  { s with config := Function.update s.config n (g (s.config n)) }

def loopback_function_bind_config (s : Driver) (o : BindOutcome) : ℤ × Driver :=
  if o.kzalloc then
    let n := s.configs.made
    let s := { s with
      configs := s.configs.alloc
      config := Function.update s.config n ⟨.null, .null⟩
      f_config := .obj n }
    let (fi, s) := loopback_alloc_instance s o.alloc_instance
    let s := s.setConfig n fun config => { config with fi := fi }
    match fi with
    | .obj m =>
      let (func, s) := loopback_alloc s m o.alloc
      let s := s.setConfig n fun config => { config with func := func }
      match func with
      | .obj k =>
        let (ret, s) := usb_add_function s m k o
        if ret ≠ 0 then
          let s := usb_put_function s func
          (ret, if s.crashed then s else s.setConfig n fun config => { config with func := .null })
        else (ret, s)
      | .err e => (e, s)
      | .null => (0, s)
    | .err e => (e, s)
    | .null => (0, s)
  else (-ENOMEM, s)

def android_bind_enabled_function (s : Driver) (o : BindOutcome) : Driver :=
  let (ret, s) := loopback_function_bind_config s o
  if s.crashed then s else { s with bound := ret = 0 }

/-- `android_unbind_enabled_functions` for this function; it has no
`unbind_config`. -/
def android_unbind_enabled_function (s : Driver) : Driver := { s with bound := false }

/-- `f->config` keeps its value. -/
def loopback_function_cleanup (s : Driver) : Driver :=
  let s := match s.f_config with
    | .obj n => usb_put_function_instance s (s.config n).fi
    | _ => s
  { s with configs := s.configs.release s.f_config }

inductive Event
  | bind (o : BindOutcome)
  | remove
  | cleanup

/-- The clean-up ends a run, and so does a crash. -/
def step (s : Driver) (e : Event) : Option Driver :=
  if s.crashed ∨ s.cleaned then none
  else
    match e with
    | .bind o => some (android_bind_enabled_function s o)
    | .remove => some (android_unbind_enabled_function s)
    | .cleanup => some { loopback_function_cleanup s with cleaned := true }

def initial : Driver where
  f_config := .null
  bound := false
  config _ := ⟨.null, .null⟩
  refcnt _ := 0
  fi _ := .null
  configs := .empty
  instances := .empty
  functions := .empty
  crashed := false
  cleaned := false

end Fixed.AndroidFunction
