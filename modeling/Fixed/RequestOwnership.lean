import Fixed.LoopbackGadget
import Fixed.Runs

/-!
Who owns the requests of the loopback gadget. The driver keeps no list of
them: a request is owned by the queue of its endpoint or, once freed, by
nobody. The callback queues every request again, also one that a disabled
endpoint gives back, and nothing is ever freed. So a run keeps the ownership
law exactly when no endpoint is disabled while a request is allocated and no
request is refused by a queue.
-/
namespace Fixed.RequestOwnership

open Runs LoopbackGadget

def Live (r : Request) : Prop := r.place ≠ .freed

instance (r : Request) : Decidable (Live r) := inferInstanceAs (Decidable (r.place ≠ .freed))

def NoneLive (s : Gadget) : Prop := ∀ r ∈ s.requests, ¬ Live r

/-- After a step every request is queued on its endpoint or freed, each
endpoint has at most one, and after a disable none is left. -/
structure Owned (_ : Gadget) (e : Event) (t : Gadget) : Prop where
  placed : ∀ r ∈ t.requests, r.place = .queued r.ep ∨ r.place = .freed
  one : ∀ ep, (t.requests.filter fun r => r.ep = ep ∧ Live r).length ≤ 1
  disabled : e = .disable → NoneLive t

structure Enables (o : Outcome) : Prop where
  config : ∀ ep, o.config_ep_by_speed ep = 0
  enable : ∀ ep, 0 ≤ o.usb_ep_enable ep

theorem enables_of_both {o : Outcome}
    (hin : o.config_ep_by_speed .in_ep = 0 ∧ 0 ≤ o.usb_ep_enable .in_ep)
    (hout : o.config_ep_by_speed .out_ep = 0 ∧ 0 ≤ o.usb_ep_enable .out_ep) : Enables o := by
  constructor
  · intro ep
    cases ep
    · exact hin.1
    · exact hout.1
  · intro ep
    cases ep
    · exact hin.2
    · exact hout.2

def QueuesSucceed (o : Outcome) : Prop :=
  o.alloc .in_ep = true → o.queue .in_ep = 0 ∧ (o.alloc .out_ep = true → o.queue .out_ep = 0)

/-- No endpoint is disabled while a request is allocated, and no request is
refused by a queue. -/
def Undisturbed (s : Gadget) (e : Event) (_ : Gadget) : Prop :=
  match e with
  | .set_alt o => NoneLive s ∧ (Enables o → QueuesSucceed o)
  | .disable => NoneLive s
  | .complete _ _ _ answer => answer = 0

structure Running (s : Gadget) : Prop where
  requests : ∃ a b, s.requests = [a, b] ∧ a.ep = .in_ep ∧ a.place = .queued .in_ep ∧
    b.ep = .out_ep ∧ b.place = .queued .out_ep
  enabled : ∀ ep, s.enabled ep = true
  loop : ∀ ep, s.driver_data ep = .loop

def Inv (s : Gadget) : Prop := s.crashed = true ∨ s.requests = [] ∨ Running s

def Stray (s : Gadget) : Prop := ∃ (i : ℕ) (r : Request), s.requests[i]? = some r ∧ r.place = .held

theorem not_owned_of_stray {s t : Gadget} {e : Event} (h : Stray t) : ¬ Owned s e t := by
  obtain ⟨i, r, hr, hplace⟩ := h
  intro ho
  rcases ho.placed r (List.mem_of_getElem? hr) with hq | hf
  · rw [hplace] at hq
    cases hq
  · rw [hplace] at hf
    cases hf

section Held

variable {s : Gadget} {i j : ℕ} {r : Request}

/-! Operations on one request leave the others alone. -/

theorem modify_of_ne (s : Gadget) (f : Request → Request) (h : i ≠ j) :
    (s.modify i f).requests[j]? = s.requests[j]? :=
  List.getElem?_modify_ne _ _ h

theorem usb_ep_queue_of_ne (s : Gadget) (ep : Ep) (answer : ℤ) (h : i ≠ j) :
    (usb_ep_queue s ep i answer).2.requests[j]? = s.requests[j]? := by
  obtain ⟨f, hf⟩ := usb_ep_queue_modify s ep i answer
  rw [hf]
  exact modify_of_ne s f h

theorem loopback_complete_of_ne (s : Gadget) (ep : Ep) (answer : ℤ) (h : i ≠ j) :
    (loopback_complete s ep i answer).requests[j]? = s.requests[j]? := by
  unfold loopback_complete
  split
  · cases ep
    · exact (usb_ep_queue_of_ne _ _ _ h).trans (modify_of_ne s _ h)
    · exact (usb_ep_queue_of_ne _ _ _ h).trans (modify_of_ne _ _ h)
  · rfl

theorem giveBack_of_ne (s : Gadget) (ep : Ep) (received : List UInt8) (answer : ℤ) (h : i ≠ j) :
    (giveBack s ep i received answer).requests[j]? = s.requests[j]? :=
  (loopback_complete_of_ne _ _ _ h).trans (modify_of_ne s _ h)

variable (hr : s.requests[j]? = some r) (hplace : r.place = .held)

include hr hplace

/-! A stray request stays where it is, whatever the driver does next. -/

theorem shutdown_of_held (ep : Ep) (i : ℕ) : (shutdown ep s i).requests[j]? = some r := by
  by_cases hij : i = j
  · subst hij
    simp only [shutdown, hr, hplace]
    simp [hr]
  · unfold shutdown
    split
    · exact hr
    · split
      · rw [giveBack_of_ne s ep [] 0 hij]
        exact hr
      · exact hr

theorem usb_ep_disable_of_held (ep : Ep) : (usb_ep_disable s ep).requests[j]? = some r := by
  have hfold : ∀ (is : List ℕ) (t : Gadget), t.requests[j]? = some r →
      (is.foldl (shutdown ep) t).requests[j]? = some r := by
    intro is
    induction is with
    | nil => intro t ht; exact ht
    | cons i is ih =>
      intro t ht
      exact ih _ (shutdown_of_held ht hplace ep i)
  exact hfold _ _ hr

end Held

section Started

variable {s : Gadget} {j : ℕ} {r : Request} (hr : s.requests[j]? = some r)

include hr

theorem start_request_of_some (o : Outcome) (ep : Ep) (length : ℕ) :
    (start_request s o ep length).2.requests[j]? = some r := by
  have hj : j < s.requests.length := (List.getElem?_eq_some_iff.mp hr).1
  unfold start_request
  split
  · rw [usb_ep_queue_of_ne _ _ _ (by omega), List.getElem?_append_left hj]
    exact hr
  · exact hr

theorem alloc_requests_of_some (o : Outcome) : (alloc_requests s o).2.requests[j]? = some r := by
  have hin := start_request_of_some hr o .in_ep (1024 * 1024 * 2)
  unfold alloc_requests
  dsimp only
  split
  · exact hin
  · exact start_request_of_some hin o .out_ep 512

theorem enable_loopback_of_held (hplace : r.place = .held) (o : Outcome) :
    (enable_loopback s o).2.requests[j]? = some r := by
  have hin : (enable_endpoint s o .in_ep).2.requests[j]? = some r := by
    rw [enable_endpoint_requests]
    exact hr
  have hout : (enable_endpoint (enable_endpoint s o .in_ep).2 o .out_ep).2.requests[j]? =
      some r := by
    rw [enable_endpoint_requests]
    exact hin
  have halloc := alloc_requests_of_some hout o
  unfold enable_loopback
  dsimp only
  split
  · exact hin
  · split
    · exact usb_ep_disable_of_held hout hplace .in_ep
    · split
      · exact usb_ep_disable_of_held (usb_ep_disable_of_held halloc hplace .out_ep) hplace .in_ep
      · exact halloc

end Started

section Idle

variable {s : Gadget} {o : Outcome} (h : s.requests = [])

include h

theorem usb_ep_disable_of_nil (ep : Ep) : usb_ep_disable s ep =
    { s with enabled := Function.update s.enabled ep false } := by
  simp [usb_ep_disable, h]

theorem disable_loopback_of_nil (clears : Bool) :
    (disable_loopback clears s).requests = [] ∧
      (disable_loopback clears s).crashed = s.crashed := by
  cases clears <;>
    simp [disable_loopback, disable_endpoint, usb_ep_disable, h]

theorem enable_loopback_of_not_enables (ho : ¬ Enables o) :
    (enable_loopback s o).2.requests = [] := by
  unfold enable_loopback
  dsimp only
  split
  · rw [enable_endpoint_requests, h]
  · rename_i hin
    split
    · rw [usb_ep_disable_of_nil (by rw [enable_endpoint_requests, enable_endpoint_requests, h])]
      exact (enable_endpoint_requests _ o .out_ep).trans
        ((enable_endpoint_requests s o .in_ep).trans h)
    · rename_i hout
      have hin' := enable_endpoint_eq_zero (not_not.mp hin)
      have hout' := enable_endpoint_eq_zero (not_not.mp hout)
      exact absurd (enables_of_both hin' hout') ho

end Idle

def ready (s : Gadget) : Gadget :=
  { s with enabled := fun _ => true, driver_data := fun _ => .loop }

/-- With both endpoints enabled the outcome is that of `alloc_requests`, undone
by the unwinding labels if it is an error. -/
theorem enable_loopback_eq (s : Gadget) {o : Outcome} (ho : Enables o) :
    enable_loopback s o = ((alloc_requests (ready s) o).1,
      if (alloc_requests (ready s) o).1 ≠ 0 ∧ (alloc_requests (ready s) o).2.crashed = false then
        usb_ep_disable (usb_ep_disable (alloc_requests (ready s) o).2 .out_ep) .in_ep
      else (alloc_requests (ready s) o).2) := by
  have hready : (enable_endpoint (enable_endpoint s o .in_ep).2 o .out_ep) = (0, ready s) := by
    rw [enable_endpoint_ok s (ho.config _) (ho.enable _),
      enable_endpoint_ok _ (ho.config _) (ho.enable _), ready]
    congr 2
    · funext ep
      cases ep <;> rfl
    · funext ep
      cases ep <;> rfl
  have hin : (enable_endpoint s o .in_ep).1 = 0 := by
    rw [enable_endpoint_ok s (ho.config _) (ho.enable _)]
  unfold enable_loopback
  simp only [hin, hready, ne_eq, not_true, if_false]
  split <;> rfl

section Alloc

variable {s : Gadget} {o : Outcome} (halloc : o.alloc .in_ep = true)

include halloc

/-- With the first request queued, the outcome is that of the second. -/
theorem alloc_requests_second (hc : s.crashed = false) (hq : o.queue .in_ep = 0) :
    alloc_requests (ready s) o = start_request { ready s with requests :=
      s.requests ++ [⟨.in_ep, List.replicate (1024 * 1024 * 2) 0, .queued .in_ep⟩] } o
      .out_ep 512 := by
  have hfirst := start_request_ok (s := ready s) halloc rfl hq (1024 * 1024 * 2)
  have hc' : (ready s).crashed = false := hc
  simp only [alloc_requests, hfirst, hc']
  rfl

/-- The first request, refused by its queue, is still held when the call returns. -/
theorem alloc_requests_stray (hq : o.queue .in_ep ≠ 0) :
    (alloc_requests (ready s) o).2.requests[s.requests.length]? =
      some ⟨.in_ep, List.replicate (1024 * 1024 * 2) 0, .held⟩ := by
  have hstray : (start_request (ready s) o .in_ep (1024 * 1024 * 2)).2.requests[
      s.requests.length]? = some ⟨.in_ep, List.replicate (1024 * 1024 * 2) 0, .held⟩ := by
    rw [start_request_refused (ready s) halloc hq]
    exact List.getElem?_concat_length
  unfold alloc_requests
  dsimp only
  split
  · exact hstray
  · exact start_request_of_some hstray o .out_ep 512

end Alloc

def Halted (s : Gadget) : Prop :=
  s.crashed = true ∧ (s.requests = [] ∨
    ∃ a, s.requests = [a] ∧ a.ep = .in_ep ∧ a.place = .queued .in_ep)

/-- `alloc_requests` on two enabled endpoints without requests. -/
theorem alloc_requests_cases {s : Gadget} (h : s.requests = []) (hc : s.crashed = false)
    (o : Outcome) :
    QueuesSucceed o ∧ (Halted (alloc_requests (ready s) o).2 ∨
        (alloc_requests (ready s) o).1 = 0 ∧ Running (alloc_requests (ready s) o).2) ∨
      ¬ QueuesSucceed o ∧ Stray (alloc_requests (ready s) o).2 := by
  cases hin : o.alloc .in_ep with
  | false =>
    refine Or.inl ⟨fun ht => absurd (hin.symm.trans ht) (by decide), Or.inl ?_⟩
    simp only [alloc_requests, start_request_null (ready s) hin]
    exact ⟨rfl, Or.inl h⟩
  | true =>
    by_cases hq : o.queue .in_ep = 0
    · rw [alloc_requests_second hin hc hq, h, List.nil_append]
      cases hout : o.alloc .out_ep with
      | false =>
        refine Or.inl ⟨fun _ => ⟨hq, fun ht => absurd (hout.symm.trans ht) (by decide)⟩, Or.inl ?_⟩
        rw [start_request_null _ hout]
        exact ⟨rfl, Or.inr ⟨_, rfl, rfl, rfl⟩⟩
      | true =>
        by_cases hq' : o.queue .out_ep = 0
        · refine Or.inl ⟨fun _ => ⟨hq, fun _ => hq'⟩, Or.inr ?_⟩
          rw [start_request_ok hout rfl hq']
          exact ⟨rfl, ⟨_, _, rfl, rfl, rfl, rfl, rfl⟩, fun _ => rfl, fun _ => rfl⟩
        · refine Or.inr ⟨fun hs => hq' ((hs hin).2 hout), ?_⟩
          rw [start_request_refused _ hout hq']
          exact ⟨1, _, rfl, rfl⟩
    · refine Or.inr ⟨fun hs => hq (hs hin).1, ?_⟩
      exact ⟨s.requests.length, _, alloc_requests_stray hin hq, rfl⟩

/-! What a step does from a state without requests, and from a running one. -/

/-- Without requests `loopback_set_alt` is as good as its queueing. -/
theorem enable_loopback_cases {s : Gadget} (h : s.requests = []) (hc : s.crashed = false)
    (o : Outcome) :
    (Enables o → QueuesSucceed o) ∧ ((enable_loopback s o).2.requests = [] ∨
        Halted (enable_loopback s o).2 ∨ Running (enable_loopback s o).2) ∨
      ¬ (Enables o → QueuesSucceed o) ∧ Stray (enable_loopback s o).2 := by
  by_cases ho : Enables o
  · rw [enable_loopback_eq s ho]
    rcases alloc_requests_cases h hc o with ⟨hs, hhalt | ⟨hzero, hrun⟩⟩ | ⟨hs, i, r, hr, hplace⟩
    · refine Or.inl ⟨fun _ => hs, Or.inr (Or.inl ?_)⟩
      rw [if_neg (by rw [hhalt.1]; simp)]
      exact hhalt
    · refine Or.inl ⟨fun _ => hs, Or.inr (Or.inr ?_)⟩
      rw [if_neg (by rw [hzero]; simp)]
      exact hrun
    · refine Or.inr ⟨fun hall => hs (hall ho), i, r, ?_, hplace⟩
      split
      · exact usb_ep_disable_of_held (usb_ep_disable_of_held hr hplace .out_ep) hplace .in_ep
      · exact hr
  · exact Or.inl ⟨fun hen => absurd hen ho, Or.inl (enable_loopback_of_not_enables h ho)⟩

/-- Disabling the endpoints of a running function strands its IN request. -/
theorem disable_loopback_of_running {s : Gadget} (hs : Running s) (hc : s.crashed = false)
    (clears : Bool) :
    ∃ r, (disable_loopback clears s).requests[0]? = some r ∧ r.place = .held := by
  obtain ⟨a, b, hreq, -, ha, -, -⟩ := hs.requests
  have hfirst : ∃ r, (usb_ep_disable s .in_ep).requests[0]? = some r ∧ r.place = .held := by
    have hget : s.requests[0]? = some a := by rw [hreq]; rfl
    have hoff : Function.update s.enabled .in_ep false .in_ep = false := Function.update_self ..
    have hback : ∃ r, (giveBack { s with enabled := Function.update s.enabled .in_ep false }
        .in_ep 0 [] 0).requests[0]? = some r ∧ r.place = .held := by
      apply giveBack_refused
      · exact hs.loop .in_ep
      · exact Or.inl hoff
      · exact hget
    obtain ⟨r, hr, hplace⟩ := hback
    refine ⟨r, ?_, hplace⟩
    have hrange : List.range s.requests.length = [0, 1] := by rw [hreq]; rfl
    have hshut : shutdown .in_ep { s with enabled := Function.update s.enabled .in_ep false } 0 =
        giveBack { s with enabled := Function.update s.enabled .in_ep false } .in_ep 0 [] 0 := by
      simp only [shutdown, hget]
      exact if_pos ⟨ha, hc⟩
    unfold usb_ep_disable
    rw [hrange, List.foldl_cons, hshut, List.foldl_cons, List.foldl_nil]
    exact shutdown_of_held hr hplace .in_ep 1
  obtain ⟨r, hr, hplace⟩ := hfirst
  refine ⟨r, ?_, hplace⟩
  unfold disable_loopback disable_endpoint
  cases clears
  · exact usb_ep_disable_of_held hr hplace .out_ep
  · exact usb_ep_disable_of_held (s := { usb_ep_disable s .in_ep with
      driver_data := Function.update (usb_ep_disable s .in_ep).driver_data .in_ep .null })
      hr hplace .out_ep

/-- An accepted completion leaves a running function running. -/
theorem running_giveBack {s : Gadget} (hs : Running s) {i : ℕ} {r : Request} {ep : Ep}
    (hr : s.requests[i]? = some r) (hplace : r.place = .queued ep) (received : List UInt8) :
    Running (giveBack s ep i received 0) := by
  obtain ⟨a, b, hreq, hae, ha, hbe, hb⟩ := hs.requests
  obtain ⟨hen, hdata, f, hf, hmod⟩ := giveBack_ok (hs.loop ep) (hs.enabled ep) i received
  refine ⟨?_, by rw [hen]; exact hs.enabled, by rw [hdata]; exact hs.loop⟩
  rw [hmod, hreq]
  rw [hreq] at hr
  match i with
  | 0 =>
    obtain rfl : a = r := Option.some.inj hr
    obtain rfl : ep = .in_ep := Place.queued.inj (hplace.symm.trans ha)
    exact ⟨f a, b, rfl, (hf a).1.trans hae, (hf a).2, hbe, hb⟩
  | 1 =>
    obtain rfl : b = r := Option.some.inj hr
    obtain rfl : ep = .out_ep := Place.queued.inj (hplace.symm.trans hb)
    exact ⟨a, f b, rfl, hae, ha, (hf b).1.trans hbe, (hf b).2⟩
  | i + 2 => exact absurd hr (by simp)

theorem not_noneLive_of_running {s : Gadget} (hs : Running s) : ¬ NoneLive s := by
  obtain ⟨a, b, hreq, -, ha, -, -⟩ := hs.requests
  intro hnone
  apply hnone a (by rw [hreq]; exact List.mem_cons_self)
  rw [Live, ha]
  simp

theorem noneLive_of_nil {s : Gadget} (h : s.requests = []) : NoneLive s := by
  intro r hr
  rw [h] at hr
  exact absurd hr (by simp)

theorem owned_of_nil (s : Gadget) (e : Event) {t : Gadget} (h : t.requests = []) :
    Owned s e t where
  placed r hr := by
    rw [h] at hr
    exact absurd hr (by simp)
  one ep := by simp [h]
  disabled _ := noneLive_of_nil h

theorem owned_of_halted (s : Gadget) {e : Event} {t : Gadget} (he : e ≠ .disable)
    (h : Halted t) : Owned s e t := by
  obtain ⟨-, hnil | ⟨a, hreq, hae, ha⟩⟩ := h
  · exact owned_of_nil s e hnil
  · refine ⟨?_, ?_, fun hd => absurd hd he⟩
    · intro r hr
      rw [hreq] at hr
      obtain rfl := List.mem_singleton.mp hr
      rw [hae]
      exact Or.inl ha
    · intro ep
      rw [hreq]
      exact List.length_filter_le _ _

theorem owned_of_running (s : Gadget) {e : Event} {t : Gadget} (he : e ≠ .disable)
    (h : Running t) : Owned s e t := by
  obtain ⟨a, b, hreq, hae, ha, hbe, hb⟩ := h.requests
  refine ⟨?_, ?_, fun hd => absurd hd he⟩
  · intro r hr
    rw [hreq] at hr
    rcases List.mem_pair.mp hr with rfl | rfl
    · rw [hae]
      exact Or.inl ha
    · rw [hbe]
      exact Or.inl hb
  · intro ep
    rw [hreq]
    cases ep <;> simp [hae, hbe, Live, ha, hb]

section Steps

variable {clears : Bool} {s t : Gadget} {e : Event}

theorem set_alt_owned_or_stray (hc : s.crashed = false) (hrun : s.requests = [] ∨ Running s)
    (o : Outcome) :
    let t := (loopback_set_alt clears s o).2
    Undisturbed s (.set_alt o) t ∧ Inv t ∧ Owned s (.set_alt o) t ∨
      ¬ Undisturbed s (.set_alt o) t ∧ Stray t := by
  intro t
  rcases hrun with hnil | hrun
  · have hfrom : ∃ u : Gadget, u.requests = [] ∧ u.crashed = false ∧
        t = (enable_loopback u o).2 := by
      obtain ⟨hreq, hcr⟩ := disable_loopback_of_nil hnil clears
      simp only [t, loopback_set_alt]
      split
      · exact ⟨_, hreq, hcr.trans hc, rfl⟩
      · exact ⟨s, hnil, hc, rfl⟩
    obtain ⟨u, hu, huc, hset⟩ := hfrom
    rw [hset]
    have hne : Event.set_alt o ≠ .disable := by simp
    rcases enable_loopback_cases hu huc o with ⟨hq, hend⟩ | ⟨hq, hstray⟩
    · refine Or.inl ⟨⟨noneLive_of_nil hnil, hq⟩, ?_⟩
      rcases hend with hnil' | hhalt | hrun'
      · exact ⟨Or.inr (Or.inl hnil'), owned_of_nil s _ hnil'⟩
      · exact ⟨Or.inl hhalt.1, owned_of_halted s hne hhalt⟩
      · exact ⟨Or.inr (Or.inr hrun'), owned_of_running s hne hrun'⟩
    · exact Or.inr ⟨fun hund => hq hund.2, hstray⟩
  · refine Or.inr ⟨fun hund => not_noneLive_of_running hrun hund.1, ?_⟩
    obtain ⟨r, hr, hplace⟩ := disable_loopback_of_running hrun hc clears
    refine ⟨0, r, ?_, hplace⟩
    have hclaimed : s.driver_data .in_ep ≠ .null := by
      rw [hrun.loop]
      decide
    simp only [t, loopback_set_alt]
    rw [if_pos hclaimed]
    exact enable_loopback_of_held hr hplace o

theorem disable_owned_or_stray (hc : s.crashed = false) (hrun : s.requests = [] ∨ Running s) :
    let t := disable_loopback clears s
    Undisturbed s .disable t ∧ Inv t ∧ Owned s .disable t ∨
      ¬ Undisturbed s .disable t ∧ Stray t := by
  intro t
  rcases hrun with hnil | hrun
  · have hnil' := (disable_loopback_of_nil hnil clears).1
    exact Or.inl ⟨noneLive_of_nil hnil, Or.inr (Or.inl hnil'), owned_of_nil s _ hnil'⟩
  · obtain ⟨r, hr, hplace⟩ := disable_loopback_of_running hrun hc clears
    exact Or.inr ⟨not_noneLive_of_running hrun, 0, r, hr, hplace⟩

theorem complete_owned_or_stray (hrun : s.requests = [] ∨ Running s) {i : ℕ} {r : Request}
    {ep : Ep} (hr : s.requests[i]? = some r) (hplace : r.place = .queued ep)
    (status : ℤ) (received : List UInt8) (answer : ℤ) :
    let e := Event.complete i status received answer
    let t := giveBack s ep i received answer
    Undisturbed s e t ∧ Inv t ∧ Owned s e t ∨ ¬ Undisturbed s e t ∧ Stray t := by
  intro e t
  rcases hrun with hnil | hrun
  · rw [hnil] at hr
    exact absurd hr (by simp)
  · by_cases ha : answer = 0
    · have hrun' : Running t := by
        simp only [t, ha]
        exact running_giveBack hrun hr hplace received
      exact Or.inl ⟨ha, Or.inr (Or.inr hrun'), owned_of_running s (by simp [e]) hrun'⟩
    · obtain ⟨r', hr', hplace'⟩ := giveBack_refused (hrun.loop ep) (Or.inr ha) hr received
      exact Or.inr ⟨ha, i, r', hr', hplace'⟩

/-- An undisturbed step keeps the invariant and the law; any other one strands
a request. -/
theorem owned_or_stray (hinv : Inv s) (h : step clears s e = some t) :
    Undisturbed s e t ∧ Inv t ∧ Owned s e t ∨ ¬ Undisturbed s e t ∧ Stray t := by
  have hc : s.crashed = false := by
    by_contra hne
    simp [step, hne] at h
  have hrun : s.requests = [] ∨ Running s := by
    rcases hinv with hcr | hrun
    · rw [hcr] at hc
      cases hc
    · exact hrun
  cases e with
  | set_alt o =>
    have ht : t = (loopback_set_alt clears s o).2 := by simpa [step, hc] using h.symm
    subst ht
    exact set_alt_owned_or_stray hc hrun o
  | disable =>
    have ht : t = disable_loopback clears s := by simpa [step, hc] using h.symm
    subst ht
    exact disable_owned_or_stray hc hrun
  | complete i status received answer =>
    obtain ⟨r, ep, hr, hplace, rfl⟩ := complete_cases h
    exact complete_owned_or_stray hrun hr hplace status received answer

theorem step_cases (clears : Bool) (s : Gadget) (e : Event) (t : Gadget) (hinv : Inv s)
    (h : step clears s e = some t) :
    Undisturbed s e t ∧ Inv t ∧ Owned s e t ∨ ¬ Undisturbed s e t ∧ ¬ Owned s e t := by
  rcases owned_or_stray hinv h with hkept | ⟨hnot, hstray⟩
  · exact Or.inl hkept
  · exact Or.inr ⟨hnot, not_owned_of_stray hstray⟩

end Steps

/-- A run from the bound function keeps every request owned exactly when no
step of it disables an endpoint with a request allocated or has a request
refused. -/
theorem requests_owned_iff (clears : Bool) (es : List Event) :
    AllSteps (step clears) Owned bound es ↔ AllSteps (step clears) Undisturbed bound es :=
  allSteps_iff (step clears) (step_cases clears) (Or.inr (Or.inl rfl))

section Sample

def smooth : Outcome := ⟨fun _ => 0, fun _ => 0, fun _ => true, fun _ => 0⟩

/-- One configuration of the function, undone again, leaves both requests
allocated and on no queue. -/
theorem configure_and_disable_leaks :
    ((exec (step true) bound [.set_alt smooth, .disable]).map fun s =>
      s.requests.map fun r => (r.ep, r.place)) = some [(.in_ep, .held), (.out_ep, .held)] ∧
    ¬ AllSteps (step true) Owned bound [.set_alt smooth, .disable] := by
  refine ⟨by decide +kernel, ?_⟩
  intro h
  obtain ⟨-, hrest⟩ := h _ rfl
  obtain ⟨ho, -⟩ := hrest _ rfl
  exact not_owned_of_stray ⟨0, _, rfl, rfl⟩ ho

end Sample

end Fixed.RequestOwnership
