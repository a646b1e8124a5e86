import Fixed.EnableAtomicity

/-!
What the completion callback does for the two endpoints. `alloc_requests` sets the
request on the IN endpoint up to send and that on the OUT endpoint to receive,
but the callback refills the buffer that was received and logs the one that was
sent. So a run gives both endpoints their roles only if nothing completes in it.
-/
namespace Fixed.CompletionRoles

open Runs LoopbackGadget RequestOwnership EnableAtomicity

/-- A completion on the OUT endpoint logs what the host wrote, as far as `%s` goes. -/
def Logs (s t : Gadget) (received : List UInt8) : Prop :=
  ∃ entry, t.printed = s.printed ++ [entry] ∧ string received <+: entry

/-- A completion on the IN endpoint fills the buffer with the next counter value and
hands it to `usb_ep_queue`, which may refuse it. -/
def Refills (s t : Gadget) (i len : ℕ) (answer : ℤ) : Prop :=
  t.c = s.c + 1 ∧ ∃ r, t.requests[i]? = some r ∧ r.buf = List.replicate len t.c ∧
    (answer = 0 → r.place = .queued .in_ep)

def Roles (s : Gadget) (e : Event) (t : Gadget) : Prop :=
  ∀ i received answer r, e = .complete i 0 received answer → s.requests[i]? = some r →
    (r.place = .queued .out_ep → Logs s t received) ∧
      (r.place = .queued .in_ep → Refills s t i r.buf.length answer)

def NoCompletion (_ : Gadget) (e : Event) (_ : Gadget) : Prop :=
  ∀ i received answer, e ≠ .complete i 0 received answer

section GiveBack

variable (s : Gadget) (i : ℕ) (received : List UInt8)

/-- Nothing is logged for the OUT endpoint. -/
theorem giveBack_out_printed (answer : ℤ) :
    (giveBack s .out_ep i received answer).printed = s.printed := by
  unfold giveBack loopback_complete
  dsimp only
  split
  · obtain ⟨f, hf⟩ := usb_ep_queue_modify _ .out_ep i answer
    rw [hf]
    rfl
  · rfl

/-- The counter does not move for the IN endpoint. -/
theorem giveBack_in_c (answer : ℤ) : (giveBack s .in_ep i received answer).c = s.c := by
  unfold giveBack loopback_complete
  dsimp only
  split
  · obtain ⟨f, hf⟩ := usb_ep_queue_modify _ .in_ep i answer
    rw [hf]
    rfl
  · rfl

variable {s i} {r : Request} (hr : s.requests[i]? = some r)

include hr

/-- What is received is overwritten with the next counter value. -/
theorem giveBack_out_refills (hloop : s.driver_data .out_ep = .loop)
    (henabled : s.enabled .out_ep = true) (hlen : received.length ≤ r.buf.length) :
    (giveBack s .out_ep i received 0).c = s.c + 1 ∧
      (giveBack s .out_ep i received 0).requests[i]? =
        some ⟨r.ep, List.replicate r.buf.length (s.c + 1), .queued .out_ep⟩ := by
  have hsize : received.length + (r.buf.length - received.length) = r.buf.length := by omega
  constructor
  · simp [giveBack, loopback_complete, Gadget.modify, hloop, usb_ep_queue, henabled]
  · simp [giveBack, loopback_complete, Gadget.modify, hloop, usb_ep_queue, henabled,
      List.getElem?_modify_eq, hr, hsize]

/-- What was to be sent is cut at its last byte, logged and queued again. -/
theorem giveBack_in_logs (hloop : s.driver_data .in_ep = .loop)
    (henabled : s.enabled .in_ep = true) :
    (giveBack s .in_ep i [] 0).printed =
        s.printed ++ [string (r.buf.set (r.buf.length - 1) 0)] ∧
      (giveBack s .in_ep i [] 0).requests[i]? =
        some ⟨r.ep, r.buf.set (r.buf.length - 1) 0, .queued .in_ep⟩ := by
  constructor
  · simp [giveBack, loopback_complete, Gadget.modify, hloop, usb_ep_queue, henabled,
      List.getElem?_modify_eq, hr]
  · simp [giveBack, loopback_complete, Gadget.modify, hloop, usb_ep_queue, henabled,
      List.getElem?_modify_eq, hr]

end GiveBack

theorem complete_enabled (clears : Bool) {s : Gadget} {i : ℕ} {r : Request} {ep : Ep}
    {received : List UInt8} (hc : s.crashed = false) (hr : s.requests[i]? = some r)
    (hplace : r.place = .queued ep) (hlen : received.length ≤ r.buf.length) (status answer : ℤ) :
    step clears s (.complete i status received answer) =
      some (giveBack s ep i received answer) := by
  simp [step, hc, hr, hplace, hlen]

/-- A successful completion takes the role of the other endpoint. -/
theorem not_roles {clears : Bool} {s t : Gadget} {i : ℕ} {received : List UInt8} {answer : ℤ}
    (h : step clears s (.complete i 0 received answer) = some t) :
    ¬ Roles s (.complete i 0 received answer) t := by
  obtain ⟨r, ep, hr, hplace, rfl⟩ := complete_cases h
  intro hroles
  obtain ⟨hout, hin⟩ := hroles i received answer r rfl hr
  cases ep with
  | out_ep =>
    obtain ⟨entry, hprinted, -⟩ := hout hplace
    rw [giveBack_out_printed] at hprinted
    have hlen := congrArg List.length hprinted
    rw [List.length_append, List.length_singleton] at hlen
    omega
  | in_ep =>
    obtain ⟨hc, -⟩ := hin hplace
    rw [giveBack_in_c] at hc
    have hnat := congrArg UInt8.toNat hc
    rw [UInt8.toNat_add] at hnat
    have hlt := s.c.toNat_lt
    have hone : (1 : UInt8).toNat = 1 := rfl
    omega

/-- From any state, the completions of a run keep to their roles exactly when no
request completes successfully in it. -/
theorem roles_iff (clears : Bool) (s : Gadget) (es : List Event) :
    AllSteps (step clears) Roles s es ↔ AllSteps (step clears) NoCompletion s es := by
  apply allSteps_iff (step clears) (I := fun _ => True)
  · intro s e t _ h
    by_cases hno : ∀ i received answer, e ≠ .complete i 0 received answer
    · exact Or.inl ⟨hno, trivial, fun i received answer _ he =>
        absurd he (hno i received answer)⟩
    · simp only [not_forall, not_not] at hno
      obtain ⟨i, received, answer, rfl⟩ := hno
      exact Or.inr ⟨fun hall => hall i received answer rfl, not_roles h⟩
  · trivial

/-- The host writes one byte to the configured function; it is not logged. -/
theorem written_byte_not_logged : ¬ ∀ es, AllSteps (step true) Roles bound es := by
  intro hall
  have hset : step true bound (.set_alt smooth) = some (started (disable_loopback true bound)) := by
    have hcall := enable_loopback_started (s := disable_loopback true bound) (o := smooth) rfl
      ⟨fun _ => rfl, fun _ => Int.le_refl 0⟩ fun _ => ⟨rfl, rfl⟩
    exact congrArg (fun u => some u.2) hcall
  have hr : (started (disable_loopback true bound)).requests[1]? =
      some ⟨.out_ep, List.replicate 512 0, .queued .out_ep⟩ := getElem?_second [] _ _
  have hfits : [(65 : UInt8)].length ≤ (List.replicate 512 (0 : UInt8)).length := by
    rw [List.length_replicate, List.length_singleton]
    omega
  have hcomplete := complete_enabled true (s := started (disable_loopback true bound)) rfl hr rfl
    hfits 0 0
  obtain ⟨-, hrest⟩ := hall [.set_alt smooth, .complete 1 0 [65] 0] _ hset
  obtain ⟨hroles, -⟩ := hrest _ hcomplete
  exact not_roles hcomplete hroles

end Fixed.CompletionRoles
