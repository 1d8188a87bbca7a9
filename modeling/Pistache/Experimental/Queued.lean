import Pistache.Experimental.Places
import Pistache.Experimental.Threads

/-!
# Queued requests on connections that are ready

`Client::doRequest` looks at the connection that it has picked: it gives it a transport, and
connects it when it is not connected.  `Client::processRequestQueue` does neither.

* `State.Ready` — the connection can be given a request.
* `steady` — while a queue is not empty, no connection of its host becomes free, or closed while it
  is free, without being ready.
* `performed_ready` — in such runs, a queued request is performed on a connection that is ready.
-/

set_option autoImplicit false

namespace Pistache.Experimental

open Stacks

variable {T : Type} [DecidableEq T]

/-! ## Connections that are free, and ready -/

/-- `processRequestQueue` has taken the connection. -/
def Frame.takes (c : ConnId) : Frame → Bool
  | .dequeue c' _ => c' = c
  | _ => false

/-- `processRequestQueue` can take the connection, or has taken it. -/
def State.Free (s : State T) (c : ConnId) : Prop :=
  (s.conn c).used = false ∨ ∃ t, (s.stack t).any (Frame.takes c)

/-- The connection has a transport, and is connected; nor is it being closed. -/
structure State.Ready (s : State T) (c : ConnId) : Prop where
  transport : (s.conn c).transport ≠ none
  connected : (s.conn c).connectionState = .Connected
  socket : (s.conn c).socket ≠ none
  closing : ∀ t, .remoteClosed c ∉ s.stack t

instance [Fintype T] (s : State T) (c : ConnId) : Decidable (s.Free c) :=
  inferInstanceAs (Decidable (_ ∨ _))

instance [Fintype T] (s : State T) (c : ConnId) : Decidable (s.Ready c) :=
  decidable_of_iff ((s.conn c).transport ≠ none ∧ (s.conn c).connectionState = .Connected ∧
      (s.conn c).socket ≠ none ∧ ∀ t, .remoteClosed c ∉ s.stack t)
    ⟨fun h => ⟨h.1, h.2.1, h.2.2.1, h.2.2.2⟩, fun h => ⟨h.1, h.2, h.3, h.4⟩⟩

/-- The connection that the next step of the thread performs a queued request on. -/
def State.performs (s : State T) (t : T) : Option ConnId :=
  match s.stack t with
  | .dequeue c _ :: _ => if s.queue c.host = [] then none else some c
  | _ => none

/-! ## Steady runs -/

/-- A request is queued, and a connection released, only where the connections that
`processRequestQueue` can take for it are ready; and such a connection is not connected or closed
while its host has a queue. -/
def Frame.steady [Fintype T] (cfg : Config T) (s : State T) (input : Input) : Frame → Bool
  | .enqueue r => ∀ i < cfg.maxConnectionsPerHost, s.Free ⟨r.host, i⟩ → s.Ready ⟨r.host, i⟩
  | .onDone c => s.queue c.host = [] ∨ s.Ready c
  | .connect _ c => s.queue c.host = [] ∨ ¬ s.Free c
  | .handleIncoming c _ => input = .recv .closed → s.queue c.host = [] ∨ ¬ s.Free c
  | _ => true

def steady [Fintype T] (cfg : Config T) (s : State T) : Event T → Bool
  | .tick _ => true
  | .thread t input =>
    match s.stack t with
    | [] => true
    | f :: _ => f.steady cfg s input

/-! ## Steps -/

section

variable {cfg : Config T} {s s' : State T} {t : T} {fs : List Frame} {input : Input} {f : Frame}

theorem move_connected (hm : Move cfg s t fs input f s') {c : ConnId}
    (hconnected : (s.conn c).connectionState = .Connected) (hsocket : (s.conn c).socket ≠ none)
    (hconnect : ∀ r, f ≠ .connect r c) (hclosed : f ≠ .remoteClosed c) :
    (s'.conn c).connectionState = .Connected ∧ (s'.conn c).socket ≠ none := by
  cases hm with
  | wait | abort | plain | unwind => exact ⟨hconnected, hsocket⟩
  | _ =>
    simp [Function.update_apply]
    grind -ring -linarith

/-- Where a connection comes to be closed. -/
theorem move_closing (hstack : s.stack t = f :: fs) (hm : Move cfg s t fs input f s') {c : ConnId}
    (h : .remoteClosed c ∈ s'.stack t) :
    .remoteClosed c ∈ s.stack t ∨
      ∃ totalBytes, f = .handleIncoming c totalBytes ∧ input = .recv .closed := by
  rw [hstack]
  cases hm with
  | wait | abort => exact .inl (hstack ▸ h)
  | plain hp => cases hp <;> simp at h <;> grind -ring -linarith
  | _ => simp at h <;> grind -ring -linarith [State.continuation]

/-- Where a connection stops to be ready. -/
theorem move_ready (hstack : s.stack t = f :: fs) (hm : Move cfg s t fs input f s') {c : ConnId}
    (h : s.Ready c) :
    s'.Ready c ∨ (∃ r, f = .connect r c) ∨
      ∃ totalBytes, f = .handleIncoming c totalBytes ∧ input = .recv .closed := by
  by_cases hconnect : ∃ r, f = .connect r c
  · exact .inr (.inl hconnect)
  by_cases hincoming : ∃ totalBytes, f = .handleIncoming c totalBytes ∧ input = .recv .closed
  · exact .inr (.inr hincoming)
  have hclosed : f ≠ .remoteClosed c := by
    rintro rfl
    exact h.closing t (hstack ▸ List.mem_cons_self)
  obtain ⟨w, hw⟩ := Option.ne_none_iff_exists'.mp h.transport
  obtain ⟨hconnected, hsocket⟩ := move_connected hm h.connected h.socket
    (fun r hr => hconnect ⟨r, hr⟩) hclosed
  refine .inl ⟨?_, hconnected, hsocket, fun u hu => ?_⟩
  · rw [hm.transport hw]
    nofun
  · by_cases hut : u = t
    · subst hut
      rcases move_closing hstack hm hu with hold | hnew
      · exact h.closing u hold
      · exact hincoming hnew
    · rw [hm.stack, Function.update_of_ne hut] at hu
      exact h.closing u hu

omit [DecidableEq T] in
theorem plain_takes {gs : List Frame} (hp : Plain cfg s t input f gs) (c : ConnId) :
    gs.any (Frame.takes c) = false := by
  cases hp <;> simp [Frame.takes]

/-- Where a connection is taken. -/
theorem move_takes (hstack : s.stack t = f :: fs) (hm : Move cfg s t fs input f s') {c : ConnId}
    (h : (s'.stack t).any (Frame.takes c)) : (s.stack t).any (Frame.takes c) ∨
      (s.conn c).used = false := by
  rw [hstack, List.any_cons, Bool.or_eq_true]
  cases hm with
  | wait | abort =>
    left
    simpa [hstack] using h
  | plain hp =>
    simp only [State.goto, Function.update_self, List.any_append, plain_takes hp, Bool.false_or] at h
    exact .inl (.inr h)
  | _ => simp [Frame.takes] at h ⊢ <;> grind -ring -linarith [State.continuation, Frame.takes]

theorem move_used (hm : Move cfg s t fs input f s') {c : ConnId}
    (h : (s'.conn c).used = false) :
    (s.conn c).used = false ∨ f = .onDone c ∨ f.takes c := by
  cases hm with
  | wait | abort | plain | unwind => exact .inl h
  | _ =>
    simp [Function.update_apply] at h
    grind -ring -linarith [Frame.takes]

/-- Where a connection becomes free. -/
theorem move_freed (hstack : s.stack t = f :: fs) (hm : Move cfg s t fs input f s') {c : ConnId}
    (h : s'.Free c) : s.Free c ∨ f = .onDone c := by
  rcases h with hused | ⟨u, hu⟩
  · rcases move_used hm hused with hold | hdone | htakes
    · exact .inl (.inl hold)
    · exact .inr hdone
    · exact .inl (.inr ⟨t, by simp [hstack, htakes]⟩)
  · by_cases hut : u = t
    · subst hut
      rcases move_takes hstack hm hu with hold | hold
      · exact .inl (.inr ⟨u, hold⟩)
      · exact .inl (.inl hold)
    · rw [hm.stack, Function.update_of_ne hut] at hu
      exact .inl (.inr ⟨u, hu⟩)

end

/-! ## Runs -/

/-- While a queue is not empty, the connections that `processRequestQueue` can take for it are
ready. -/
def State.Prepared (cfg : Config T) (s : State T) : Prop :=
  ∀ c, c.index < cfg.maxConnectionsPerHost → s.queue c.host ≠ [] → s.Free c → s.Ready c

/-- A thread with nothing under way begins with something. -/
theorem begun_ready {s s' : State T} {t : T} {gs : List Frame} {c : ConnId}
    (hstack : s'.stack = Function.update s.stack t gs)
    (hgs : ∀ g ∈ gs, g.takes c = false ∧ g ≠ .remoteClosed c)
    (hused : (s'.conn c).used = (s.conn c).used)
    (htransport : (s'.conn c).transport = (s.conn c).transport)
    (hconnected : (s'.conn c).connectionState = (s.conn c).connectionState)
    (hsocket : (s'.conn c).socket = (s.conn c).socket) (h : s.Free c → s.Ready c)
    (hfree : s'.Free c) : s'.Ready c := by
  have hready : s.Ready c := by
    refine h ?_
    rcases hfree with hfree | ⟨u, hu⟩
    · exact .inl (hused ▸ hfree)
    · refine .inr ⟨u, ?_⟩
      by_cases hut : u = t
      · subst hut
        rw [hstack, Function.update_self, List.any_eq_true] at hu
        obtain ⟨g, hg, htakes⟩ := hu
        rw [(hgs g hg).1] at htakes
        cases htakes
      · rwa [hstack, Function.update_of_ne hut] at hu
  refine ⟨htransport ▸ hready.transport, hconnected ▸ hready.connected,
    hsocket ▸ hready.socket, fun u hu => ?_⟩
  by_cases hut : u = t
  · subst hut
    rw [hstack, Function.update_self] at hu
    exact (hgs _ hu).2 rfl
  · rw [hstack, Function.update_of_ne hut] at hu
    exact hready.closing u hu

theorem prepared_step [Fintype T] {cfg : Config T} {s s' : State T} {event : Event T}
    (h : s.Prepared cfg) (hsteady : steady cfg s event) (hs : Happens cfg s event s') :
    s'.Prepared cfg := by
  intro c hindex hqueue hfree
  cases hs with
  | nothing => exact h c hindex hqueue hfree
  | tick =>
    obtain ⟨htransport, hconnected, hsocket, hclosing⟩ := h c hindex hqueue hfree
    exact ⟨htransport, hconnected, hsocket, hclosing⟩
  | @frame t input f fs _ hstack hm =>
    have hcond : f.steady cfg s input := by simpa only [steady, hstack] using hsteady
    by_cases hold : s.queue c.host = []
    · -- the request is queued behind the look at the pool
      obtain ⟨r, rfl, hhost, -⟩ := move_queued hm hold hqueue
      have hready : ∀ i < cfg.maxConnectionsPerHost, s.Free ⟨r.host, i⟩ → s.Ready ⟨r.host, i⟩ := by
        simpa [Frame.steady] using hcond
      obtain ⟨host, i⟩ := c
      cases hhost
      rcases move_freed hstack hm hfree with hfree | hdone
      · rcases move_ready hstack hm (hready i hindex hfree) with hready | ⟨r', hr⟩ | ⟨_, hin, -⟩
        · exact hready
        · cases hr
        · cases hin
      · cases hdone
    · rcases move_freed hstack hm hfree with hfree | rfl
      · rcases move_ready hstack hm (h c hindex hold hfree) with hready | ⟨r, rfl⟩ |
          ⟨totalBytes, rfl, hclosed⟩
        · exact hready
        · simp [Frame.steady, hold, hfree] at hcond
        · simp [Frame.steady, hold, hfree, hclosed] at hcond
      · have hready : s.Ready c := by simpa [Frame.steady, hold] using hcond
        rcases move_ready hstack hm hready with hready | ⟨r', hr⟩ | ⟨_, hin, -⟩
        · exact hready
        · cases hr
        · cases hin
  | @poll t events hstack =>
    have hconn : (s.reported events c).used = (s.conn c).used ∧
        (s.reported events c).transport = (s.conn c).transport ∧
        (s.reported events c).connectionState = (s.conn c).connectionState ∧
        (s.reported events c).socket = (s.conn c).socket := by
      unfold State.reported
      split <;> exact ⟨rfl, rfl, rfl, rfl⟩
    refine begun_ready (s := s) (t := t) rfl (fun g hg => ?_) hconn.1
      hconn.2.1 hconn.2.2.1 hconn.2.2.2 (h c hindex hqueue) hfree
    rw [List.mem_singleton.mp hg]
    exact ⟨rfl, nofun⟩
  | @call t resource timeout size hstack =>
    refine begun_ready (s := s) (t := t) rfl (fun g hg => ?_) rfl rfl rfl rfl (h c hindex hqueue) hfree
    simp only [List.mem_cons, List.not_mem_nil, or_false] at hg
    rcases hg with rfl | rfl <;> exact ⟨rfl, nofun⟩

/-- **A queued request** is performed on a connection that has a transport and is connected. -/
theorem performed_ready [Fintype T] (cfg : Config T) (events : List (Event T))
    (h : Machine.Always (next cfg) (fun s event => steady cfg s event) start events) {t : T}
    {c : ConnId} (hperforms : (run cfg start events).performs t = some c) :
    (run cfg start events).Ready c := by
  have hprepared : (run cfg start events).Prepared cfg :=
    always_inv (P := fun s event => steady cfg s event) (I := State.Prepared cfg)
      (by simp [State.Prepared, start]) (fun s event s' h hP hs => prepared_step h hP hs) h
  unfold State.performs at hperforms
  split at hperforms
  · rename_i c' hosts fs hstack
    split at hperforms
    · cases hperforms
    · rename_i hqueue
      cases hperforms
      have hmem : .dequeue c hosts ∈ (run cfg start events).stack t := hstack ▸ List.mem_cons_self
      refine hprepared c ((keyed_run cfg events).target t _ c hmem rfl) hqueue (.inr ⟨t, ?_⟩)
      rw [hstack, List.any_cons]
      simp [Frame.takes]
  · cases hperforms

/-- The connection is given back by a response, behind which a request is queued. -/
def handedOver : List (Event Bool) :=
  connecting (lit "h") 0 ++ performing ++ queueing (lit "h") 0 ++ respondingQueued.take 10

theorem performed_ready_handedOver : (run small start handedOver).Ready first :=
  performed_ready small handedOver (by decide) (t := true) (by decide)

/-- The remote closes, with a request queued behind the one that waits for its response. -/
def closedUnder : List (Event Bool) :=
  connecting (lit "h") 0 ++ performing ++ queueing (lit "h") 0 ++
    [worker (.poll [.socket first .readable]), worker .go, worker (.recv .closed), worker .go,
      worker .return_, worker .go, worker .go, worker (.order [lit "h"]), worker .go]

/-- A request is queued behind the release of its connection, which the remote closes then. -/
def closedIdle : List (Event Bool) :=
  connecting (lit "h") 0 ++ performing ++ (queueing (lit "h") 0).take 3 ++ responding ++
    (queueing (lit "h") 0).drop 3 ++ [worker (.poll [.socket first .readable]), worker .go,
      worker (.recv .closed), worker .go, worker .go, worker .go]

def second : ConnId := ⟨lit "g", 0⟩

/-- The request of another host ends, which leads to the queue. -/
def otherHost : List (Event Bool) :=
  (connecting (lit "g") 0).take 11 ++ [worker (.poll [.socket second .writable])] ++ performing ++
    worker (.poll [.socket second .readable]) :: respondingQueued.drop 1

set_option maxRecDepth 8000 in
/-- A queued request is performed on a connection that is being closed, or on one that has been
closed, and then rejected for it. -/
theorem performed_closed :
    ((run small start closedUnder).performs true = some first ∧
      ¬ (run small start closedUnder).Ready first) ∧
    (run small start (closedIdle ++ otherHost ++ [worker .go])).outcomes 1 =
      [.rejected "Could not send request"] := by
  decide

end Pistache.Experimental
