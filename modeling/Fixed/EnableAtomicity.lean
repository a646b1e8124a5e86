import Fixed.RequestOwnership

/-!
What one `enable_loopback` leaves behind, for every outcome of the calls it
makes. The endpoints are unwound in the right order, but `alloc_requests` writes
through whatever the allocations return, drops the result of the first queueing
and never frees. So the call is all or nothing exactly when an endpoint cannot be
enabled or everything after the endpoints succeeds.
-/
namespace Fixed.EnableAtomicity

open Runs LoopbackGadget RequestOwnership

def allocated (s t : Gadget) : List Request := t.requests.drop s.requests.length

/-- The call succeeds with both endpoints enabled and a request queued on each,
or fails with both disabled and none of its requests left, and in no case goes
through a null pointer. -/
structure Atomic (s : Gadget) (o : Outcome) : Prop where
  safe : (enable_loopback s o).2.crashed = false
  success : (enable_loopback s o).1 = 0 →
    (∀ ep, (enable_loopback s o).2.enabled ep = true) ∧
      (allocated s (enable_loopback s o).2).map Request.place =
        [.queued .in_ep, .queued .out_ep]
  failure : (enable_loopback s o).1 ≠ 0 →
    (∀ ep, (enable_loopback s o).2.enabled ep = false) ∧
      ∀ r ∈ allocated s (enable_loopback s o).2, r.place = .freed

def RequestsStart (o : Outcome) : Prop := ∀ ep, o.alloc ep = true ∧ o.queue ep = 0

structure SameEndpoints (s t : Gadget) : Prop where
  enabled : t.enabled = s.enabled
  driver_data : t.driver_data = s.driver_data
  length : t.requests.length = s.requests.length

theorem SameEndpoints.refl (s : Gadget) : SameEndpoints s s := ⟨rfl, rfl, rfl⟩

theorem SameEndpoints.trans {s t u : Gadget} (h : SameEndpoints s t) (h' : SameEndpoints t u) :
    SameEndpoints s u :=
  ⟨h'.enabled.trans h.enabled, h'.driver_data.trans h.driver_data, h'.length.trans h.length⟩

theorem sameEndpoints_modify (s : Gadget) (i : ℕ) (f : Request → Request) :
    SameEndpoints s (s.modify i f) :=
  ⟨rfl, rfl, List.length_modify f s.requests i⟩

theorem sameEndpoints_queue (s : Gadget) (ep : Ep) (i : ℕ) (answer : ℤ) :
    SameEndpoints s (usb_ep_queue s ep i answer).2 := by
  obtain ⟨f, hf⟩ := usb_ep_queue_modify s ep i answer
  rw [hf]
  exact sameEndpoints_modify s i f

/-- For a claimed endpoint the callback ends by queueing the request again. -/
theorem loopback_complete_cases {s : Gadget} {ep : Ep} (hloop : s.driver_data ep = .loop) (i : ℕ)
    (answer : ℤ) : ∃ u, SameEndpoints s u ∧ u.crashed = s.crashed ∧
      loopback_complete s ep i answer = (usb_ep_queue u ep i answer).2 := by
  unfold loopback_complete
  rw [hloop]
  cases ep
  · dsimp only
    refine ⟨_, ?_, ?_, rfl⟩
    · exact ⟨rfl, rfl, List.length_modify _ s.requests i⟩
    · rfl
  · dsimp only
    refine ⟨_, ?_, ?_, rfl⟩
    · exact ⟨rfl, rfl, List.length_modify _ s.requests i⟩
    · rfl

theorem sameEndpoints_complete (s : Gadget) (ep : Ep) (i : ℕ) (answer : ℤ) :
    SameEndpoints s (loopback_complete s ep i answer) := by
  by_cases hloop : s.driver_data ep = .loop
  · obtain ⟨u, hu, -, hcall⟩ := loopback_complete_cases hloop i answer
    rw [hcall]
    exact hu.trans (sameEndpoints_queue u ep i answer)
  · unfold loopback_complete
    split
    · contradiction
    · exact ⟨rfl, rfl, rfl⟩

theorem loopback_complete_crashed {s : Gadget} {ep : Ep} (hloop : s.driver_data ep = .loop)
    (i : ℕ) (answer : ℤ) : (loopback_complete s ep i answer).crashed = s.crashed := by
  obtain ⟨u, -, hu, hcall⟩ := loopback_complete_cases hloop i answer
  obtain ⟨f, hf⟩ := usb_ep_queue_modify u ep i answer
  rw [hcall, hf]
  exact hu

theorem sameEndpoints_giveBack (s : Gadget) (ep : Ep) (i : ℕ) (received : List UInt8) (answer : ℤ) :
    SameEndpoints s (giveBack s ep i received answer) :=
  (sameEndpoints_modify s i _).trans (sameEndpoints_complete _ ep i answer)

theorem giveBack_crashed {s : Gadget} {ep : Ep} (hloop : s.driver_data ep = .loop) (i : ℕ)
    (received : List UInt8) (answer : ℤ) :
    (giveBack s ep i received answer).crashed = s.crashed :=
  loopback_complete_crashed (s := s.modify i _) hloop i answer

theorem sameEndpoints_shutdown (s : Gadget) (ep : Ep) (i : ℕ) :
    SameEndpoints s (shutdown ep s i) := by
  unfold shutdown
  split
  · exact .refl s
  · split
    · exact sameEndpoints_giveBack s ep i [] 0
    · exact .refl s

theorem sameEndpoints_foldl (ep : Ep) (is : List ℕ) (s : Gadget) :
    SameEndpoints s (is.foldl (shutdown ep) s) := by
  induction is generalizing s with
  | nil => exact .refl s
  | cons i is ih => exact (sameEndpoints_shutdown s ep i).trans (ih _)

/-- `usb_ep_disable` disables its endpoint and no other. -/
theorem sameEndpoints_disable (s : Gadget) (ep : Ep) :
    SameEndpoints { s with enabled := Function.update s.enabled ep false } (usb_ep_disable s ep) :=
  sameEndpoints_foldl ep _ _

/-- Giving the requests of a claimed endpoint back crashes nothing. -/
theorem usb_ep_disable_crashed {s : Gadget} {ep : Ep} (hloop : s.driver_data ep = .loop) :
    (usb_ep_disable s ep).crashed = s.crashed := by
  have hfold : ∀ (is : List ℕ) (t : Gadget), t.driver_data ep = .loop →
      (is.foldl (shutdown ep) t).crashed = t.crashed := by
    intro is
    induction is with
    | nil => intro t _; rfl
    | cons i is ih =>
      intro t ht
      have hstep : (shutdown ep t i).crashed = t.crashed := by
        unfold shutdown
        split
        · rfl
        · split
          · exact giveBack_crashed ht i [] 0
          · rfl
      rw [List.foldl_cons, ih _ (by rw [(sameEndpoints_shutdown t ep i).driver_data, ht]), hstep]
  exact hfold _ _ hloop

section Call

variable {s : Gadget} {o : Outcome}

theorem enable_endpoint_failed (s : Gadget) {ep : Ep}
    (h : ¬ (o.config_ep_by_speed ep = 0 ∧ 0 ≤ o.usb_ep_enable ep)) :
    (enable_endpoint s o ep).1 ≠ 0 ∧ (enable_endpoint s o ep).2 = s := by
  unfold enable_endpoint
  split
  · rename_i hconfig
    exact ⟨hconfig, rfl⟩
  · split
    · rename_i henable
      exact ⟨Int.ne_of_lt henable, rfl⟩
    · omega

structure Undone (s : Gadget) (o : Outcome) : Prop where
  result : (enable_loopback s o).1 ≠ 0
  crashed : (enable_loopback s o).2.crashed = s.crashed
  disabled : ∀ ep, (enable_loopback s o).2.enabled ep = false
  length : (enable_loopback s o).2.requests.length = s.requests.length

theorem Undone.atomic (h : Undone s o) (hc : s.crashed = false) : Atomic s o where
  safe := h.crashed.trans hc
  success hzero := absurd hzero h.result
  failure _ := by
    refine ⟨h.disabled, fun r hr => ?_⟩
    rw [allocated, List.drop_eq_nil_of_le (Nat.le_of_eq h.length)] at hr
    cases hr

/-- With the IN endpoint failing nothing has been done yet. -/
theorem undone_of_in_failed (hd : ∀ ep, s.enabled ep = false)
    (hin : ¬ (o.config_ep_by_speed .in_ep = 0 ∧ 0 ≤ o.usb_ep_enable .in_ep)) : Undone s o := by
  obtain ⟨hresult, hkeep⟩ := enable_endpoint_failed s hin
  have hcall : enable_loopback s o = ((enable_endpoint s o .in_ep).1, s) := by
    simp only [enable_loopback, if_pos hresult, hkeep]
  refine ⟨?_, ?_, ?_, ?_⟩
  · rw [hcall]
    exact hresult
  · rw [hcall]
  · rw [hcall]
    exact hd
  · rw [hcall]

/-- With the OUT endpoint failing the IN endpoint is disabled again. -/
theorem undone_of_out_failed (hd : ∀ ep, s.enabled ep = false)
    (hin : o.config_ep_by_speed .in_ep = 0 ∧ 0 ≤ o.usb_ep_enable .in_ep)
    (hout : ¬ (o.config_ep_by_speed .out_ep = 0 ∧ 0 ≤ o.usb_ep_enable .out_ep)) : Undone s o := by
  have hfirst := enable_endpoint_ok s hin.1 hin.2
  obtain ⟨hresult, hkeep⟩ := enable_endpoint_failed (enable_endpoint s o .in_ep).2 hout
  have hsame := sameEndpoints_disable (enable_endpoint s o .in_ep).2 .in_ep
  have hcall : enable_loopback s o =
      ((enable_endpoint (enable_endpoint s o .in_ep).2 o .out_ep).1,
        usb_ep_disable (enable_endpoint s o .in_ep).2 .in_ep) := by
    have hzero : (enable_endpoint s o .in_ep).1 = 0 := by rw [hfirst]
    simp only [enable_loopback, hzero, hkeep, if_pos hresult, ne_eq, not_true, if_false]
  have hloop : (enable_endpoint s o .in_ep).2.driver_data .in_ep = .loop := by
    rw [hfirst]
    rfl
  have hcrashed : (enable_endpoint s o .in_ep).2.crashed = s.crashed := by rw [hfirst]
  have hoff : ∀ ep, Function.update (enable_endpoint s o .in_ep).2.enabled .in_ep false ep =
      false := by
    rw [hfirst]
    intro ep
    cases ep
    · rfl
    · exact hd .out_ep
  refine ⟨?_, ?_, ?_, ?_⟩
  · rw [hcall]
    exact hresult
  · rw [hcall, usb_ep_disable_crashed hloop, hcrashed]
  · rw [hcall, hsame.enabled]
    exact hoff
  · rw [hcall, hsame.length]
    exact congrArg List.length (enable_endpoint_requests s o .in_ep)

/-- A failing endpoint leaves the function as it was, the other one disabled again. -/
theorem undone_of_not_enables (hd : ∀ ep, s.enabled ep = false) (ho : ¬ Enables o) :
    Undone s o := by
  by_cases hin : o.config_ep_by_speed .in_ep = 0 ∧ 0 ≤ o.usb_ep_enable .in_ep
  · have hout : ¬ (o.config_ep_by_speed .out_ep = 0 ∧ 0 ≤ o.usb_ep_enable .out_ep) := by
      intro hout
      exact ho (enables_of_both hin hout)
    exact undone_of_out_failed hd hin hout
  · exact undone_of_in_failed hd hin

/-- A request of the call that neither a queue nor the free list has. -/
theorem not_atomic_of_stray {j : ℕ} {r : Request} (hj : s.requests.length ≤ j)
    (hr : (enable_loopback s o).2.requests[j]? = some r) (hplace : r.place = .held) :
    ¬ Atomic s o := by
  intro h
  have hmem : r ∈ allocated s (enable_loopback s o).2 := by
    apply List.mem_of_getElem? (i := j - s.requests.length)
    rw [allocated, List.getElem?_drop, Nat.add_sub_cancel' hj, hr]
  by_cases hzero : (enable_loopback s o).1 = 0
  · have hplaces := List.mem_map_of_mem (f := Request.place) hmem
    rw [(h.success hzero).2, hplace] at hplaces
    simp at hplaces
  · have hfreed := (h.failure hzero).2 r hmem
    rw [hplace] at hfreed
    cases hfreed

/-- A null pointer from an allocation is written through. -/
theorem alloc_requests_null (s : Gadget) (h : ∃ ep, o.alloc ep = false) :
    (alloc_requests s o).2.crashed = true := by
  unfold alloc_requests
  dsimp only
  split
  · assumption
  · rename_i hfirst
    obtain ⟨ep, hep⟩ := h
    cases ep with
    | in_ep => simp [start_request_null s hep] at hfirst
    | out_ep => rw [start_request_null _ hep]

theorem getElem?_second {α : Type} (l : List α) (a b : α) :
    (l ++ [a] ++ [b])[l.length + 1]? = some b := by
  have hlen : (l ++ [a]).length = l.length + 1 := List.length_append
  rw [← hlen]
  exact List.getElem?_concat_length

/-- With both requests allocated, one that a queue refuses stays with the driver. -/
theorem alloc_requests_refused (hc : s.crashed = false) (halloc : ∀ ep, o.alloc ep = true)
    (hq : ¬ ∀ ep, o.queue ep = 0) :
    ∃ (j : ℕ) (r : Request), s.requests.length ≤ j ∧
      (alloc_requests (ready s) o).2.requests[j]? = some r ∧ r.place = .held := by
  by_cases hin : o.queue .in_ep = 0
  · have hout : o.queue .out_ep ≠ 0 := by
      intro hout
      refine hq fun ep => ?_
      cases ep
      · exact hin
      · exact hout
    refine ⟨s.requests.length + 1, ⟨.out_ep, List.replicate 512 0, .held⟩, by omega, ?_, rfl⟩
    rw [alloc_requests_second (halloc .in_ep) hc hin, start_request_refused _ (halloc .out_ep) hout]
    exact getElem?_second s.requests _ _
  · exact ⟨s.requests.length, _, Nat.le_refl _, alloc_requests_stray (halloc .in_ep) hin, rfl⟩

def started (s : Gadget) : Gadget :=
  { ready s with requests :=
      s.requests ++ [⟨.in_ep, List.replicate (1024 * 1024 * 2) 0, .queued .in_ep⟩] ++
        [⟨.out_ep, List.replicate 512 0, .queued .out_ep⟩] }

theorem enable_loopback_started (hc : s.crashed = false) (ho : Enables o)
    (hstart : RequestsStart o) : enable_loopback s o = (0, started s) := by
  have hcalls : alloc_requests (ready s) o = (0, started s) := by
    rw [alloc_requests_second (hstart .in_ep).1 hc (hstart .in_ep).2]
    exact start_request_ok (hstart .out_ep).1 rfl (hstart .out_ep).2 512
  rw [enable_loopback_eq s ho, hcalls]
  rfl

theorem atomic_of_requestsStart (hc : s.crashed = false) (ho : Enables o)
    (hstart : RequestsStart o) : Atomic s o := by
  have hcall := enable_loopback_started hc ho hstart
  refine ⟨by rw [hcall]; exact hc, fun _ => ?_, fun hne => ?_⟩
  · rw [hcall, allocated, started, List.append_assoc, List.drop_left]
    exact ⟨fun _ => rfl, rfl⟩
  · rw [hcall] at hne
    exact absurd rfl hne

theorem requestsStart_of_atomic (hc : s.crashed = false) (ho : Enables o) (h : Atomic s o) :
    RequestsStart o := by
  by_cases halloc : ∀ ep, o.alloc ep = true
  · by_cases hq : ∀ ep, o.queue ep = 0
    · exact fun ep => ⟨halloc ep, hq ep⟩
    · obtain ⟨j, r, hj, hr, hplace⟩ := alloc_requests_refused hc halloc hq
      refine absurd h (not_atomic_of_stray hj ?_ hplace)
      rw [enable_loopback_eq s ho]
      dsimp only
      split
      · exact usb_ep_disable_of_held (usb_ep_disable_of_held hr hplace .out_ep) hplace .in_ep
      · exact hr
  · have hnull : ∃ ep, o.alloc ep = false := by simpa using halloc
    have hcrash := alloc_requests_null (ready s) hnull
    have hsafe := h.safe
    rw [enable_loopback_eq s ho] at hsafe
    simp [hcrash] at hsafe

/-- Called with both endpoints disabled, `enable_loopback` is atomic exactly when an
endpoint cannot be enabled or both requests are allocated and queued. -/
theorem enable_loopback_atomic_iff (s : Gadget) (o : Outcome) (hc : s.crashed = false)
    (hd : ∀ ep, s.enabled ep = false) : Atomic s o ↔ ¬ Enables o ∨ RequestsStart o := by
  by_cases ho : Enables o
  · constructor
    · intro h
      exact Or.inr (requestsStart_of_atomic hc ho h)
    · rintro (hno | hstart)
      · exact absurd ho hno
      · exact atomic_of_requestsStart hc ho hstart
  · constructor
    · intro _
      exact Or.inl ho
    · intro _
      exact (undone_of_not_enables hd ho).atomic hc

end Call

/-- A function bound to its endpoints and configured for the first time. -/
theorem enable_loopback_atomic_bound : Atomic bound smooth :=
  (enable_loopback_atomic_iff bound smooth rfl fun _ => rfl).mpr (Or.inr fun _ => ⟨rfl, rfl⟩)

def refusedIn : Outcome := { smooth with queue := fun ep => if ep = .in_ep then -22 else 0 }

/-- The request that was refused stays allocated, whatever the call returns. -/
theorem refused_request_kept : ¬ ∀ o, Atomic bound o := by
  intro hall
  have henables : Enables refusedIn := ⟨fun _ => rfl, fun _ => Int.le_refl 0⟩
  have hstart := requestsStart_of_atomic rfl henables (hall refusedIn)
  exact absurd (hstart .in_ep).2 (by decide)

section Caller

variable {clears : Bool} {s t : Gadget}

def Claimed (s : Gadget) : Prop := s.driver_data .in_ep = .null → ∀ ep, s.enabled ep = false

theorem disable_endpoint_enabled (clears : Bool) (s : Gadget) (ep : Ep) :
    (disable_endpoint clears s ep).enabled = Function.update s.enabled ep false := by
  have hsame := (sameEndpoints_disable s ep).enabled
  cases clears
  · exact hsame
  · exact hsame

theorem disable_loopback_enabled (clears : Bool) (s : Gadget) (ep : Ep) :
    (disable_loopback clears s).enabled ep = false := by
  rw [disable_loopback, disable_endpoint_enabled, disable_endpoint_enabled]
  cases ep <;> rfl

/-- The state in which `loopback_set_alt` calls `enable_loopback`. -/
theorem set_alt_calls (hs : Claimed s) : ∃ u : Gadget, (∀ ep, u.enabled ep = false) ∧
    ∀ o, loopback_set_alt clears s o = enable_loopback u o := by
  by_cases hdata : s.driver_data .in_ep = .null
  · refine ⟨s, hs hdata, fun o => ?_⟩
    simp only [loopback_set_alt, hdata, ne_eq, not_true, if_false]
  · refine ⟨disable_loopback clears s, disable_loopback_enabled clears s, fun o => ?_⟩
    simp only [loopback_set_alt, ne_eq, hdata, not_false_eq_true, if_true]

theorem start_request_driver_data (s : Gadget) (o : Outcome) (ep : Ep) (length : ℕ) :
    (start_request s o ep length).2.driver_data = s.driver_data := by
  unfold start_request
  split
  · exact (sameEndpoints_queue _ _ _ _).driver_data
  · rfl

theorem alloc_requests_driver_data (s : Gadget) (o : Outcome) :
    (alloc_requests s o).2.driver_data = s.driver_data := by
  unfold alloc_requests
  dsimp only
  split
  · exact start_request_driver_data _ _ _ _
  · rw [start_request_driver_data, start_request_driver_data]

theorem claimed_enable_loopback (o : Outcome) (hd : ∀ ep, s.enabled ep = false) :
    Claimed (enable_loopback s o).2 := by
  by_cases ho : Enables o
  · have hloop : (enable_loopback s o).2.driver_data .in_ep = .loop := by
      have halloc := alloc_requests_driver_data (ready s) o
      rw [enable_loopback_eq s ho]
      dsimp only
      split
      · rw [(sameEndpoints_disable _ _).driver_data, (sameEndpoints_disable _ _).driver_data,
          halloc]
        rfl
      · rw [halloc]
        rfl
    intro hnull
    simp [hloop] at hnull
  · exact fun _ => (undone_of_not_enables hd ho).disabled

theorem claimed_step {e : Event} (hs : Claimed s) (h : step clears s e = some t) : Claimed t := by
  cases e with
  | set_alt o =>
    obtain ⟨u, hu, hcall⟩ := set_alt_calls hs
    obtain ⟨-, ht⟩ := Option.ite_none_left_eq_some.mp h
    rw [← Option.some.inj ht, hcall]
    exact claimed_enable_loopback o hu
  | disable =>
    obtain ⟨-, ht⟩ := Option.ite_none_left_eq_some.mp h
    rw [← Option.some.inj ht]
    exact fun _ => disable_loopback_enabled clears s
  | complete i status received answer =>
    obtain ⟨r, ep, -, -, rfl⟩ := complete_cases h
    have hsame := sameEndpoints_giveBack s ep i received answer
    rw [Claimed, hsame.driver_data, hsame.enabled]
    exact hs

/-- In every run of the bound function `enable_loopback` is called with both
endpoints disabled. -/
theorem enable_loopback_called_disabled {es : List Event}
    (hrun : exec (step clears) bound es = some s) : ∃ u : Gadget, (∀ ep, u.enabled ep = false) ∧
      ∀ o, loopback_set_alt clears s o = enable_loopback u o := by
  have hbound : Claimed bound := fun _ _ => rfl
  have hkeeps : ∀ s e t, Claimed s → step clears s e = some t → Claimed t := fun _ _ _ hs h =>
    claimed_step hs h
  exact set_alt_calls (exec_invariant (step clears) hkeeps hbound hrun)

end Caller

end Fixed.EnableAtomicity
