import Pistache.Experimental.Moves

/-!
# The thread of a connection

What is done with the socket, the requests and the timers of a connection is done by the thread
of its transport.

* `Frame.here` — the connections that a frame works on as their transport.
* `owned_run` — in every run these are connections of the thread's own transport.
-/

set_option autoImplicit false

namespace Pistache.Experimental

variable {T : Type} [DecidableEq T]

/-- The connection of an event. -/
def Ready.conn : Ready → Option ConnId
  | connectionsQueue => none
  | requestsQueue => none
  | socket c _ => some c
  | timer c _ => some c

/-- The connections that the frame works on as their transport. -/
def Frame.here : Frame → List ConnId
  | .asyncSendRequestImpl c _ _ | .send c _ _ _ | .insertTimeout c _ | .handleError c _
  | .handleTimeout c | .rejected c | .onDone c | .insertConnection c | .modifyFd c
  | .eraseTimeout c _ | .handleIncoming c _ | .remoteClosed c | .handleResponsePacket c
  | .resolved c | .tryBlock c => [c]
  | .onReady events => events.filterMap Ready.conn
  | _ => []

/-- Each transport works on its own connections. -/
structure State.Owned (s : State T) : Prop where
  frame : ∀ t f c, f ∈ s.stack t → c ∈ f.here → (s.conn c).transport = some t
  sends : ∀ w, ∀ e ∈ (s.transport w).requestsQueue, (s.conn e.conn).transport = some w
  connections : ∀ w, ∀ c ∈ (s.transport w).connectionsQueue, (s.conn c).transport = some w
  timeouts : ∀ w, ∀ e ∈ (s.transport w).timeouts, (s.conn e.1).transport = some w

/-- A connection keeps its transport. -/
theorem Move.transport {cfg : Config T} {s s' : State T} {t : T} {fs : List Frame} {input : Input}
    {f : Frame} (hm : Move cfg s t fs input f s') {c : ConnId} {w : T}
    (h : (s.conn c).transport = some w) : (s'.conn c).transport = some w := by
  cases hm with
  | wait | abort | plain | unwind => exact h
  | _ =>
    simp
    grind -ring -linarith

/-- A socket is opened for a request, and closed behind the end of its stream. -/
theorem move_socket {cfg : Config T} {s s' : State T} {t : T} {fs : List Frame} {input : Input}
    {f : Frame} (hm : Move cfg s t fs input f s') (c : ConnId) :
    (s'.conn c).socket = (s.conn c).socket ∨
      (∃ r, f = .connect r c ∧ (s'.conn c).socket = some r.https) ∨
      (f = .remoteClosed c ∧ (s'.conn c).socket = none) := by
  cases hm with
  | wait | abort | plain | unwind => exact .inl rfl
  | _ =>
    simp [Function.update_apply]
    try grind -ring -linarith

/-- The frames that a step puts on the stack work on connections of the thread. -/
theorem move_here {cfg : Config T} {s s' : State T} {t : T} {fs : List Frame} {input : Input}
    {f : Frame} (hm : Move cfg s t fs input f s') (h : s.Owned) (hstack : s.stack t = f :: fs)
    (g : Frame) (c : ConnId) (hg : g ∈ s'.stack t) (hc : c ∈ g.here) :
    (s.conn c).transport = some t := by
  have hold : ∀ g ∈ f :: fs, c ∈ g.here → (s.conn c).transport = some t :=
    fun g hg => h.frame t g c (hstack ▸ hg)
  have htop := hold f List.mem_cons_self
  have hrest : ∀ g ∈ fs, c ∈ g.here → (s.conn c).transport = some t :=
    fun g hg => hold g (List.mem_cons_of_mem _ hg)
  cases hm with
  | wait => exact hold g (hstack ▸ hg) hc
  | abort => exact hold g (hstack ▸ hg) hc
  | plain hp =>
    simp only [State.goto, Function.update_self, List.mem_append] at hg
    rcases hg with hg | hg
    · cases hp <;> simp at hg <;> grind -ring -linarith [Frame.here, Ready.conn]
    · exact hrest g hg hc
  | @sends_next e queue hqueue =>
    have hsent := h.sends t e (hqueue ▸ List.mem_cons_self)
    simp only [State.goto, Function.update_self] at hg
    grind -ring -linarith [Frame.here]
  | @catch_ what _ c' gs hfs hf =>
    have hnext := hrest _ (hfs ▸ List.mem_cons_self)
    simp only [State.goto, Function.update_self] at hg
    rcases hf with rfl | rfl <;> grind -ring -linarith [Frame.here]
  | _ =>
    simp at hg <;> grind -ring -linarith [Frame.here, Ready.conn, State.continuation, h.connections t]

theorem owned_step {cfg : Config T} {s s' : State T} {event : Event T} (h : s.Owned)
    (hs : Happens cfg s event s') : s'.Owned := by
  cases hs with
  | nothing => exact h
  | tick => exact ⟨h.frame, h.sends, h.connections, h.timeouts⟩
  | @frame t input f fs _ hstack hm =>
    refine ⟨fun u g c hg hc => hm.transport ?_, fun w e he => hm.transport ?_,
      fun w c hc => hm.transport ?_, fun w e he => hm.transport ?_⟩
    · by_cases hu : u = t
      · subst hu
        exact move_here hm h hstack g c hg hc
      · rw [hm.stack, Function.update_of_ne hu] at hg
        exact h.frame u g c hg hc
    · have hold := h.sends w e
      have htop := h.frame t f
      cases hm with
      | wait | abort | plain | unwind => exact hold he
      | _ =>
        simp [Function.update_apply] at he
        grind -ring -linarith
    · have hold := h.connections w c
      cases hm with
      | wait | abort | plain | unwind => exact hold hc
      | _ =>
        simp [Function.update_apply] at hc
        grind -ring -linarith
    · have hold := h.timeouts w e
      have htop := h.frame t f
      cases hm with
      | wait | abort | plain | unwind => exact hold he
      | _ =>
        simp [Function.update_apply] at he
        grind -ring -linarith [Frame.here, List.mem_of_mem_erase]
  | @poll t events hstack _ _ _ hpolled =>
    have hconn : ∀ c, (s.reported events c).transport = (s.conn c).transport := by
      intro c
      unfold State.reported
      split <;> rfl
    refine ⟨fun u g c hg hc => (hconn c).trans ?_, fun w e he => (hconn _).trans (h.sends w e he),
      fun w c hc => (hconn c).trans (h.connections w c hc),
      fun w e he => (hconn _).trans (h.timeouts w e he)⟩
    by_cases hu : u = t
    · subst hu
      simp only [State.goto, Function.update_self, List.mem_singleton] at hg
      subst hg
      obtain ⟨e, he, hec⟩ := List.mem_filterMap.mp hc
      have hp := hpolled e he
      cases e with
      | connectionsQueue => cases hec
      | requestsQueue => cases hec
      | timer c' k =>
        cases hec
        exact hp.1
      | socket c' readiness =>
        cases hec
        cases readiness <;> exact hp.1
    · simp only [State.goto, Function.update_of_ne hu] at hg
      exact h.frame u g c hg hc
  | @call t resource timeout size hstack =>
    refine ⟨fun u g c hg hc => ?_, h.sends, h.connections, h.timeouts⟩
    by_cases hu : u = t
    · subst hu
      simp only [State.call, State.goto, Function.update_self, List.mem_cons,
        List.not_mem_nil, or_false] at hg
      rcases hg with rfl | rfl <;> cases hc
    · simp only [State.call, State.goto, Function.update_of_ne hu] at hg
      exact h.frame u g c hg hc

/-- **The thread of a connection**, in every run. -/
theorem owned_run (cfg : Config T) (events : List (Event T)) : (run cfg start events).Owned :=
  run_inv ⟨by simp [start], by simp [start], by simp [start], by simp [start]⟩
    (fun _ _ _ h hs => owned_step h hs) events

/-! ## A small client

Runs of a client with one transport, one other thread, and one connection for each host. -/

def small : Config Bool := ⟨[true], 1⟩

def caller (input : Input) : Event Bool := .thread false input

def worker (input : Input) : Event Bool := .thread true input

/-- The connection of the host `h`. -/
def first : ConnId := ⟨lit "h", 0⟩

/-- A call of `doRequest` that has to connect, up to the writable socket. -/
def connecting (resource : Bytes) (timeout : Int) : List (Event Bool) :=
  [caller (.doRequest resource timeout 5), caller .go, caller .go, caller (.connect true),
    caller .go, caller .go, worker (.poll [.connectionsQueue]), worker .go, worker (.connect true),
    worker (.connect true), worker .go, worker (.poll [.socket first .writable])]

/-- The request is performed behind it, and all of it is sent. -/
def performing : List (Event Bool) :=
  [worker .go, worker .go, worker .go, worker .go, worker .go, worker .go, worker .go,
    worker (.send (.bytes 5)), worker .go, worker .go, worker .go, worker .go]

/-- Its response, with nothing queued behind it. -/
def responding : List (Event Bool) :=
  [worker (.poll [.socket first .readable]), worker .go, worker (.recv .bytes),
    worker (.recv .EAGAIN), worker (.parse .Done), worker .return_, worker .go, worker .go,
    worker (.order []), worker .go, worker .go, worker .go]

/-- A call of `doRequest` that finds the connection, and all of it sent. -/
def reusing (resource : Bytes) (timeout : Int) : List (Event Bool) :=
  [caller (.doRequest resource timeout 5), caller .go, caller .go, caller .go, caller .go,
    caller .go, caller .go, worker (.poll [.requestsQueue]), worker .go, worker .go, worker .go,
    worker (.send (.bytes 5)), worker .go, worker .go]

/-- A call of `doRequest` that finds the connection used. -/
def queueing (resource : Bytes) (timeout : Int) : List (Event Bool) :=
  [caller (.doRequest resource timeout 5), caller .go, caller .go, caller .go, caller .go]

/-- The response to a request behind which another one is queued, up to the send of that one. -/
def respondingQueued : List (Event Bool) :=
  [worker (.poll [.socket first .readable]), worker .go, worker (.recv .bytes),
    worker (.recv .EAGAIN), worker (.parse .Done), worker .return_, worker .go, worker .go,
    worker (.order [lit "h"]), worker .go, worker .go, worker .go, worker .go, worker .go,
    worker .go]

end Pistache.Experimental
