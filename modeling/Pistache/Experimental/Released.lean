import Pistache.Experimental.Places

/-!
# A used connection is used by a request

The callback of a request gives its connection back.  It is lost when an exception comes past it,
out of a continuation of the user; and one that comes out of `Client::processRequestQueue` leaves
the queues behind it.

* `orderly` — none of this happens, and a request is queued only where each connection of its host
  is used, or processing the queues is yet to come to it.
* `State.Stacked` — what stands below a frame.
* `State.Marked` — in such runs, a connection that is marked as used is with a request.
-/

set_option autoImplicit false

namespace Pistache.Experimental

open Stacks

variable {T : Type} [DecidableEq T]

/-! ## Orderly runs -/

/-- The frame leads to a look at the connection for the queue of its host. -/
def Frame.covers (host : Bytes) (index : Nat) : Frame → Bool
  | .rejected _ | .resolved _ | .onDone _ | .processRequestQueue => true
  | .pick (host' :: hosts) i => (host' = host ∧ i ≤ index) ∨ host ∈ hosts
  | .dequeue _ hosts => host ∈ hosts
  | _ => false

/-- The connection is used, or a thread is yet to come to it. -/
def State.Covered (s : State T) (host : Bytes) (index : Nat) : Prop :=
  (s.conn ⟨host, index⟩).used ∨ ∃ t, (s.stack t).any (Frame.covers host index)

instance [Fintype T] (s : State T) (host : Bytes) (index : Nat) :
    Decidable (s.Covered host index) :=
  inferInstanceAs (Decidable (_ ∨ _))

/-- No exception leaves a continuation of the user or the loops of `Client::processRequestQueue`,
and a request is queued only where each connection of its host is covered. -/
def Frame.orderly [Fintype T] (cfg : Config T) (s : State T) (input : Input) (fs : List Frame) :
    Frame → Bool
  | .user => input ≠ .throw_
  | .throwing _ =>
    match fs with
    | .user :: _ => input = .catch_
    | .pick _ _ :: _ => false
    | _ => true
  | .enqueue r =>
    s.locked .queuesLock ≠ none ∨ ∀ i < cfg.maxConnectionsPerHost, s.Covered r.host i
  | _ => true

def orderly [Fintype T] (cfg : Config T) (s : State T) : Event T → Bool
  | .tick _ => true
  | .thread t input =>
    match s.stack t with
    | [] => true
    | f :: fs => f.orderly cfg s input fs

/-! ## What stands below a frame -/

/-- The frame waits for a continuation of the user. -/
def Frame.resets : Frame → Bool
  | .rejected _ | .resolved _ => true
  | _ => false

/-- The frame calls nothing. -/
def Frame.leaf : Frame → Bool
  | .onDone _ | .processRequestQueue | .dequeue _ _ => true
  | f => f.request.isSome

/-- A frame above others: they do call something, and what waits for a continuation of the user
stands below one.  A connection that the loops have taken is one of their host. -/
@[mk_iff]
structure Over (f : Frame) (fs : List Frame) : Prop where
  leaf : ∀ g ∈ fs, g.leaf = false
  resets : ∀ g gs, fs = g :: gs → g.resets → f = .user
  host : ∀ c hosts, f = .dequeue c hosts → hosts.head? = some c.host

def State.Stacked (s : State T) : Prop := ∀ t, Tower Over (s.stack t)

section

variable {cfg : Config T} {s s' : State T} {t : T} {fs : List Frame} {input : Input} {f : Frame}

omit [DecidableEq T] in
theorem plain_over [Fintype T] {gs : List Frame} (horderly : f.orderly cfg s input fs)
    (hp : Plain cfg s t input f gs) (h : Over f fs) (hrest : Tower Over fs) :
    Tower Over (gs ++ fs) := by
  obtain ⟨hleaf, hresets, hhost⟩ := h
  cases hp <;> simp [Frame.orderly] at horderly <;> simp [Tower, over_iff, hrest] <;>
    grind -ring -linarith [Frame.leaf, Frame.resets, Frame.request]

theorem move_over [Fintype T] (hstack : s.stack t = f :: fs)
    (horderly : f.orderly cfg s input fs) (hm : Move cfg s t fs input f s')
    (h : Tower Over (f :: fs)) : Tower Over (s'.stack t) := by
  obtain ⟨⟨hleaf, hresets, hhost⟩, hrest⟩ := h
  cases hm with
  | wait | abort =>
    simp only [State.abort, hstack]
    exact ⟨⟨hleaf, hresets, hhost⟩, hrest⟩
  | plain hp =>
    simp only [State.goto, Function.update_self]
    exact plain_over horderly hp ⟨hleaf, hresets, hhost⟩ hrest
  | connect | reject | timeOut | resolve | ready_writable | connection_tls =>
    simp only [State.goto, State.settle, State.setConn, State.setTransport, State.releaseTimer,
      State.continuation, Function.update_self]
    split <;> simp [Tower, over_iff, hrest] <;>
      grind -ring -linarith [Frame.leaf, Frame.resets, Frame.request]
  | connection_throws _ _ hgs =>
    rcases hgs with rfl | rfl <;> simp [Tower, over_iff, hrest] <;>
      grind -ring -linarith [Frame.leaf, Frame.resets, Frame.request]
  | caught hfs | catch_ hfs | unwind hfs =>
    subst hfs
    simp [Tower, over_iff, Frame.orderly] at hrest horderly ⊢
    grind -ring -linarith [Frame.leaf, Frame.resets, Frame.request]
  | _ =>
    simp [Tower, over_iff, hrest]
    try grind -ring -linarith [Frame.leaf, Frame.resets, Frame.request]

/-! ## Marks -/

/-- What a step of `t` adds to the mark of a connection, it adds to its places. -/
def Kept (c : ConnId) (t : T) (s s' : State T) : Prop :=
  weight (Frame.uses c) (s.stack t) + s.parked c + s'.mark c ≤
    weight (Frame.uses c) (s'.stack t) + s'.parked c + s.mark c

omit [DecidableEq T] in
theorem plain_uses_eq {gs : List Frame} (h : Plain cfg s t input f gs) (c : ConnId) :
    weight (Frame.uses c) gs = f.uses c := by
  cases h <;> simp [Frame.uses]

theorem uses_leaf {c : ConnId} {g : Frame} (hleaf : g.leaf = false) (hresets : g.resets = false) :
    g.uses c = 0 := by
  cases g <;> simp [Frame.leaf, Frame.request] at hleaf <;> simp [Frame.resets] at hresets <;> rfl

theorem unsettled_settle_of_ne (outcomes : Nat → List Outcome) (id : Nat) (outcome : Outcome)
    {entry : Option RequestEntry} (h : ∀ e, entry = some e → e.request.id ≠ id) :
    unsettled (Function.update outcomes id (outcome :: outcomes id)) entry =
      unsettled outcomes entry := by
  cases entry with
  | none => rfl
  | some e => simp only [unsettled, Function.update_of_ne (h e rfl)]

theorem move_kept [Fintype T] (hstack : s.stack t = f :: fs)
    (horderly : f.orderly cfg s input fs) (hm : Move cfg s t fs input f s')
    (hover : Tower Over (f :: fs))
    (hfree : ∀ c, 1 ≤ f.uses c → s.parked c = 0 ∧ (s.conn c).used)
    (hpending : ∀ r, 1 ≤ f.has r → s.outcomes r.id = [])
    (hone : ∀ c e c' e', (s.conn c).requestEntry = some e → (s.conn c').requestEntry = some e' →
      s.outcomes e.request.id = [] → e'.request.id = e.request.id → c' = c)
    (hboth : ∀ r c e, 1 ≤ f.has r → (s.conn c).requestEntry = some e → e.request.id ≠ r.id)
    (c : ConnId) : Kept c t s s' := by
  unfold Kept
  cases hm with
  | wait | abort => exact Nat.le_refl _
  | plain hp =>
    have := plain_uses_eq hp c
    simp only [State.goto, Function.update_self, hstack, weight_cons, weight_append]
    simp only [State.parked, State.mark]
    omega
  | @full r =>
    have hsame := unsettled_settle_of_ne s.outcomes r.id (.rejected "Queue is full")
      fun e he => hboth r c e (by simp [Frame.has]) he
    simp [hstack, Frame.uses, State.parked, State.mark, hsame]
    exact Nat.le_refl _
  | @reject c' error e he hp | @timeOut c' e he _ hp | @resolve c' e _ he hp =>
    by_cases hc : c = c'
    · subst hc
      simp [hstack, Frame.uses, State.parked, State.mark, he, unsettled, hp, State.continuation]
      grind -ring -linarith [Frame.uses, weight_cons, weight_nil]
    · have hsame := fun outcome => unsettled_settle_of_ne s.outcomes e.request.id outcome
        fun e' he' hid => hc (hone c' e c e' he he' hp hid)
      simp [hstack, Frame.uses, State.parked, State.mark, hc, hsame, State.continuation]
      grind -ring -linarith [Frame.uses, weight_cons, weight_nil]
  | setEntry | rejected | resolved | onDone | dequeue_none =>
    have hc := hfree c
    simp [hstack, Frame.uses, State.parked, State.mark, Function.update_apply] at hc ⊢
    grind -ring -linarith [unsettled, Frame.has]
  | caught hfs =>
    subst hfs
    simp [hstack, Frame.uses, State.parked, State.mark]
    exact Nat.le_refl _
  | @catch_ what g c' gs hfs | @unwind what g gs hfs =>
    -- what an exception leaves behind has no connection
    subst hfs
    have hg : g.uses c = 0 := uses_leaf (hover.1.leaf g List.mem_cons_self)
      (Bool.eq_false_iff.mpr fun hresets => by cases hover.1.resets g gs rfl hresets)
    simp only [State.goto, Function.update_self, hstack, weight_cons, hg, Nat.zero_add]
    exact Nat.le_refl _
  | _ =>
    simp [hstack, Frame.uses, State.parked, State.mark, Function.update_apply]
    try grind -ring -linarith [Frame.uses, State.continuation, unsettled, weight_cons, weight_nil]

end

/-! ## Runs -/

/-- A connection that is marked as used is with a request. -/
def State.Marked [Fintype T] (s : State T) : Prop := ∀ c, s.mark c ≤ s.users c

section

variable [Fintype T] {cfg : Config T} {s s' : State T} {event : Event T}

theorem stacked_step (h : s.Stacked) (horderly : orderly cfg s event)
    (hs : Happens cfg s event s') : s'.Stacked := by
  intro t
  cases hs with
  | nothing | tick => exact h t
  | @frame u input f fs _ hstack hm =>
    by_cases ht : t = u
    · subst ht
      refine move_over hstack ?_ hm (hstack ▸ h t)
      simpa only [orderly, hstack] using horderly
    · rw [hm.stack, Function.update_of_ne ht]
      exact h t
  | @poll u events hstack =>
    by_cases ht : t = u
    · simp [ht, Tower, over_iff]
    · simp [ht]
      exact h t
  | @call u resource timeout size hstack =>
    by_cases ht : t = u
    · simp [ht, Tower, over_iff, Frame.leaf, Frame.request, Frame.resets]
    · simp [ht]
      exact h t

theorem marked_step (h : s.Marked) (hsound : s.Sound cfg) (hstacked : s.Stacked)
    (horderly : orderly cfg s event) (hs : Happens cfg s event s') : s'.Marked := by
  intro c
  have hc := h c
  cases hs with
  | nothing | tick => exact hc
  | @frame u input f fs _ hstack hm =>
    have hmem : f ∈ s.stack u := hstack ▸ List.mem_cons_self
    have hkept := move_kept hstack (by simpa only [orderly, hstack] using horderly) hm
      (hstack ▸ hstacked u)
      (fun c hc => ⟨(users_top (hsound.users c) hstack hc).2.2.1,
        (users_top (hsound.users c) hstack hc).2.2.2⟩)
      (fun r hr => (hsound.accounted.pending hmem hr).2)
      (fun c e c' e' => hsound.accounted.one_entry hsound.keyed)
      (fun r c e hr he => hsound.accounted.not_both hsound.keyed hmem hr he) c
    have htotal := total_update (Frame.uses c) s.stack u (s'.stack u)
    rw [← hm.stack] at htotal
    unfold Kept at hkept
    unfold State.users at hc ⊢
    omega
  | poll hstack =>
    rw [(polled_users hstack c).1, (polled_users hstack c).2]
    exact hc
  | call hstack =>
    rw [(asked_users hstack c).1, (asked_users hstack c).2]
    exact hc

end

end Pistache.Experimental
