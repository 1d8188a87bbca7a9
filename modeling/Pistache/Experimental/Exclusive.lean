import Pistache.Experimental.Moves

/-!
# Connections and timers belong to one request

A connection that `pickConnection` has taken is in one place: with a call that is to perform a
request on it or to give it back, in its own `requestsQueue`, or in its `requestEntry` while the
promise is pending.  The number of these places, over all threads, never exceeds what the mark
of the connection allows.

* `Balance`, `move_balance` — a step moves the connection from place to place, or takes or
  releases it together with its mark.
* `exclusive` — in every state that is reached, a connection is used by one request at most, none
  is performed over a pending one, and no timer is with two.
-/

set_option autoImplicit false

namespace Pistache.Experimental

open Stacks

variable {T : Type} [DecidableEq T]

/-! ## Places -/

/-- The frame has the connection: a request is to be performed on it, or it is to be released. -/
def Frame.uses (c : ConnId) : Frame → Nat
  | .found _ c' | .performImpl c' _ | .setEntry c' _ _ | .rejected c' | .resolved c' | .onDone c'
  | .dequeue c' _ => if c' = c then 1 else 0
  | _ => 0

/-- The frame has the timer, which is yet to be put into the entry. -/
def Frame.usesTimer (c : ConnId) (k : Nat) : Frame → Nat
  | .setEntry c' _ (some k') => if c' = c ∧ k' = k then 1 else 0
  | _ => 0

/-- The entry holds a request whose promise is pending. -/
def unsettled (outcomes : Nat → List Outcome) : Option RequestEntry → Nat
  | some e => if outcomes e.request.id = [] then 1 else 0
  | none => 0

/-- The same, with this timer. -/
def unsettledTimer (outcomes : Nat → List Outcome) (k : Nat) : Option RequestEntry → Nat
  | some e => if outcomes e.request.id = [] ∧ e.timer = some k then 1 else 0
  | none => 0

namespace State

/-- The requests that are with the connection itself. -/
def parked (s : State T) (c : ConnId) : Nat :=
  (s.conn c).requestsQueue.length + unsettled s.outcomes (s.conn c).requestEntry

/-- The requests in flight that use the connection. -/
def users [Fintype T] (s : State T) (c : ConnId) : Nat :=
  total (Frame.uses c) s.stack + s.parked c

/-- The requests in flight that have been handed the timer. -/
def timerUsers [Fintype T] (s : State T) (c : ConnId) (k : Nat) : Nat :=
  total (Frame.usesTimer c k) s.stack + unsettledTimer s.outcomes k (s.conn c).requestEntry

/-- The mark of the connection. -/
def mark (s : State T) (c : ConnId) : Nat := if (s.conn c).used then 1 else 0

/-- A connection is marked as used by one request at most, `performImpl` is entered only where no
promise is pending, and a timer is with one request at most. -/
structure Exclusive [Fintype T] (s : State T) : Prop where
  connection : ∀ c, s.users c ≤ s.mark c
  entry : ∀ t c r, .performImpl c r ∈ s.stack t → unsettled s.outcomes (s.conn c).requestEntry = 0
  timer : ∀ c k, s.timerUsers c k ≤ 1

end State

/-! ## The balance of a step -/

/-- What a step of `t` adds to the places of a connection, it adds to its mark. -/
def Balance (c : ConnId) (t : T) (s s' : State T) : Prop :=
  weight (Frame.uses c) (s'.stack t) + s'.parked c + s.mark c ≤
    weight (Frame.uses c) (s.stack t) + s.parked c + s'.mark c

theorem unsettled_settle_le (outcomes : Nat → List Outcome) (id : Nat) (outcome : Outcome)
    (entry : Option RequestEntry) :
    unsettled (Function.update outcomes id (outcome :: outcomes id)) entry ≤
      unsettled outcomes entry := by
  cases entry with
  | none => exact Nat.le_refl _
  | some e =>
    simp only [unsettled, Function.update_apply]
    split <;> split <;> simp_all

omit [DecidableEq T] in
theorem plain_uses {cfg : Config T} {s : State T} {t : T} {input : Input} {f : Frame}
    {gs : List Frame} (h : Plain cfg s t input f gs) (c : ConnId) :
    weight (Frame.uses c) gs ≤ f.uses c := by
  cases h <;> simp [Frame.uses]

/-- **A move.** -/
theorem move_balance {cfg : Config T} {s s' : State T} {t : T} {f : Frame} {fs : List Frame}
    {input : Input} (h : s.stack t = f :: fs) (hm : Move cfg s t fs input f s') (c : ConnId) :
    Balance c t s s' := by
  unfold Balance
  cases hm with
  | plain hp =>
    have := plain_uses hp c
    simp only [State.goto, Function.update_self, h, weight_cons, weight_append]
    simp only [State.parked, State.mark]
    omega
  | _ =>
    simp [h, Frame.uses, State.parked, State.mark, Function.update_apply]
    try grind -ring -linarith [Frame.uses, State.continuation, unsettled, unsettled_settle_le, weight_cons,
      weight_nil]

/-! ## Runs -/

variable [Fintype T]

theorem polled_users {s : State T} {t : T} {events : List Ready} (hstack : s.stack t = [])
    (c : ConnId) :
    let s' := ({ s with conn := s.reported events }.setLock (.handlingMutex t) (some t)).goto t
      [.onReady events]
    s'.users c = s.users c ∧ s'.mark c = s.mark c := by
  have htotal := total_update (Frame.uses c) s.stack t [.onReady events]
  have hconn : ((s.reported events c).requestsQueue = (s.conn c).requestsQueue) ∧
      (s.reported events c).requestEntry = (s.conn c).requestEntry ∧
      (s.reported events c).used = (s.conn c).used := by
    unfold State.reported
    split <;> exact ⟨rfl, rfl, rfl⟩
  rw [hstack] at htotal
  simp only [weight_nil, weight_cons, Frame.uses, Nat.add_zero] at htotal
  simp only [State.users, State.parked, State.mark, State.goto, State.setLock, hconn.1, hconn.2.1,
    hconn.2.2, htotal]
  exact ⟨trivial, trivial⟩

theorem asked_users {s : State T} {t : T} {resource : Bytes} {timeout : Int} {size : Nat}
    (hstack : s.stack t = []) (c : ConnId) :
    (s.call t resource timeout size []).users c = s.users c ∧
      (s.call t resource timeout size []).mark c = s.mark c := by
  have htotal := total_update (Frame.uses c) s.stack t
    [.pickConnection ⟨s.requests.length, resource, timeout, size⟩ 0,
      .doRequest ⟨s.requests.length, resource, timeout, size⟩]
  rw [hstack] at htotal
  simp only [weight_nil, weight_cons, Frame.uses, Nat.add_zero] at htotal
  refine ⟨?_, rfl⟩
  simp only [State.users, State.goto, State.call, htotal]
  rfl

theorem users_step {cfg : Config T} {s s' : State T} {event : Event T}
    (h : ∀ c, s.users c ≤ s.mark c) (hs : Happens cfg s event s') (c : ConnId) :
    s'.users c ≤ s'.mark c := by
  have hc := h c
  cases hs with
  | nothing => exact hc
  | tick => exact hc
  | @frame t input f fs _ hstack hm =>
    have hbalance := move_balance hstack hm c
    have htotal := total_update (Frame.uses c) s.stack t (s'.stack t)
    rw [← hm.stack] at htotal
    unfold Balance at hbalance
    unfold State.users at hc ⊢
    omega
  | poll hstack =>
    rw [(polled_users hstack c).1, (polled_users hstack c).2]
    exact hc
  | call hstack =>
    rw [(asked_users hstack c).1, (asked_users hstack c).2]
    exact hc

/-- **The places of a connection.** -/
theorem users_le (cfg : Config T) (events : List (Event T)) (c : ConnId) :
    (run cfg start events).users c ≤ (run cfg start events).mark c := by
  refine run_inv (I := fun s => ∀ c, s.users c ≤ s.mark c) ?_
    (fun s event s' h hs => users_step h hs) events c
  intro c
  simp [State.users, State.parked, State.mark, start, unsettled, total_empty]

omit [DecidableEq T] [Fintype T] in
theorem State.mark_le (s : State T) (c : ConnId) : s.mark c ≤ 1 := by
  unfold State.mark
  split <;> omega

/-- The frame on top is the only place. -/
theorem users_top {s : State T} {c : ConnId} (h : s.users c ≤ s.mark c) {t : T} {f : Frame}
    {fs : List Frame} (hstack : s.stack t = f :: fs) (hf : 1 ≤ f.uses c) :
    (∀ g ∈ fs, g.uses c = 0) ∧ (∀ u, u ≠ t → ∀ g ∈ s.stack u, g.uses c = 0) ∧ s.parked c = 0 ∧
      (s.conn c).used := by
  have hmark := s.mark_le c
  have htop := weight_le_total (w := Frame.uses c) s.stack t
  rw [hstack, weight_cons] at htop
  unfold State.users at h
  refine ⟨fun g hg => ?_, fun u hu g hg => ?_, by omega, ?_⟩
  · have hbelow := le_weight (w := Frame.uses c) hg
    omega
  · have hother := le_weight (w := Frame.uses c) hg
    have htwo := weight_add_le_total (w := Frame.uses c) s.stack hu
    rw [hstack, weight_cons] at htwo
    omega
  · by_contra hused
    rw [State.mark, if_neg hused] at h
    omega

omit [DecidableEq T] in
/-- The connection itself is the only place. -/
theorem users_parked {s : State T} {c : ConnId} (h : s.users c ≤ s.mark c)
    (hparked : 1 ≤ s.parked c) :
    (∀ t, ∀ g ∈ s.stack t, g.uses c = 0) ∧ s.parked c = 1 ∧ (s.conn c).used := by
  have hmark := s.mark_le c
  unfold State.users at h
  refine ⟨fun t g hg => ?_, by omega, ?_⟩
  · have hframe := le_weight (w := Frame.uses c) hg
    have htotal := weight_le_total (w := Frame.uses c) s.stack t
    omega
  · by_contra hused
    rw [State.mark, if_neg hused] at h
    omega

theorem usesTimer_le (c : ConnId) (k : Nat) (f : Frame) : f.usesTimer c k ≤ f.uses c := by
  unfold Frame.usesTimer
  split
  · rename_i c' r k'
    by_cases hc : c' = c
    · simp only [Frame.uses, hc, if_true]
      split <;> omega
    · rw [if_neg fun h => hc h.1]
      exact Nat.zero_le _
  · exact Nat.zero_le _

theorem unsettledTimer_le (outcomes : Nat → List Outcome) (k : Nat)
    (entry : Option RequestEntry) : unsettledTimer outcomes k entry ≤ unsettled outcomes entry := by
  cases entry with
  | none => exact Nat.le_refl _
  | some e =>
    simp only [unsettledTimer, unsettled]
    split <;> split <;> simp_all

/-- **Exclusive use** of connections and timers, in every run. -/
theorem exclusive (cfg : Config T) (events : List (Event T)) :
    (run cfg start events).Exclusive where
  connection := users_le cfg events
  entry t c r hmem := by
    have husers := users_le cfg events c
    have hmark := (run cfg start events).mark_le c
    have hframe : 1 ≤ weight (Frame.uses c) ((run cfg start events).stack t) := by
      have := le_weight (w := Frame.uses c) hmem
      simpa [Frame.uses] using this
    have htotal := weight_le_total (w := Frame.uses c) (run cfg start events).stack t
    unfold State.users State.parked at husers
    omega
  timer c k := by
    have husers := users_le cfg events c
    have hmark := (run cfg start events).mark_le c
    have htotal := total_mono (usesTimer_le c k) (run cfg start events).stack
    have hentry := unsettledTimer_le (run cfg start events).outcomes k
      ((run cfg start events).conn c).requestEntry
    unfold State.users State.parked at husers
    unfold State.timerUsers
    omega

end Pistache.Experimental
