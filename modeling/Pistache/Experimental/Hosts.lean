import Pistache.Experimental.Exclusive

/-!
# Requests stand under their host

A request is queued under its host, and performed on a connection of the pool of its host.

* `move_queue`, `move_requests`, `move_entry`, `move_sent`, `move_frames` — where a request that a
  step leaves in a queue, an entry or a frame has been before it.
* `State.Keyed`, `keyed_run` — requests stand under their host, in every run.
-/

set_option autoImplicit false

namespace Pistache.Experimental

open Stacks

variable {T : Type} [DecidableEq T]

/-! ## Hosts and connections -/

/-- The request that the frame is to perform, to send or to queue. -/
def Frame.request : Frame → Option Request
  | .pickConnection r _ | .enqueue r | .found r _ | .connect r _ | .performImpl _ r
  | .setEntry _ r _ | .asyncSendRequest _ r _ | .asyncSendRequestImpl _ r _ | .send _ r _ _ => some r
  | _ => none

/-- The connection that the frame has for a request. -/
def Frame.target : Frame → Option ConnId
  | .found _ c | .connect _ c | .performImpl c _ | .setEntry c _ _ | .asyncSendRequest c _ _
  | .asyncSendRequestImpl c _ _ | .send c _ _ _ | .dequeue c _ => some c
  | _ => none

/-- The connection is one of the pool of the host. -/
def Pooled (cfg : Config T) (host : Bytes) (c : ConnId) : Prop :=
  host = c.host ∧ c.index < cfg.maxConnectionsPerHost

/-- Requests stand under their host. -/
structure State.Keyed (cfg : Config T) (s : State T) : Prop where
  target : ∀ t f c, f ∈ s.stack t → f.target = some c → c.index < cfg.maxConnectionsPerHost
  frame : ∀ t f c r, f ∈ s.stack t → f.target = some c → f.request = some r → r.host = c.host
  queue : ∀ host, ∀ r ∈ s.queue host, r.host = host
  requests : ∀ c, ∀ r ∈ (s.conn c).requestsQueue, Pooled cfg r.host c
  entry : ∀ c e, (s.conn c).requestEntry = some e → Pooled cfg e.request.host c
  sent : ∀ w, ∀ e ∈ (s.transport w).requestsQueue, Pooled cfg e.request.host e.conn

/-! ## Where requests come from -/

section

variable {cfg : Config T} {s s' : State T} {t : T} {fs : List Frame} {input : Input} {f : Frame}

theorem move_queue (hm : Move cfg s t fs input f s') {host : Bytes} {r : Request}
    (h : r ∈ s'.queue host) : r ∈ s.queue host ∨ (f = .enqueue r ∧ host = r.host) := by
  cases hm with
  | wait | abort | plain | unwind => exact .inl h
  | _ =>
    simp [Function.update_apply] at h
    grind -ring -linarith

/-- Where a queue that has been empty is not. -/
theorem move_queued (hm : Move cfg s t fs input f s') {host : Bytes} (h : s.queue host = [])
    (hqueue : s'.queue host ≠ []) :
    ∃ r, f = .enqueue r ∧ r.host = host ∧ s.locked .queuesLock = none := by
  cases hm with
  | wait | abort | plain | unwind => exact absurd h hqueue
  | _ =>
    simp [Function.update_apply] at hqueue
    grind -ring -linarith

theorem move_requests (hm : Move cfg s t fs input f s') {c : ConnId} {r : Request}
    (h : r ∈ (s'.conn c).requestsQueue) : r ∈ (s.conn c).requestsQueue ∨ f = .found r c := by
  cases hm with
  | wait | abort | plain | unwind => exact .inl h
  | _ =>
    simp [Function.update_apply] at h
    grind -ring -linarith

theorem move_entry (hm : Move cfg s t fs input f s') {c : ConnId} {e : RequestEntry}
    (h : (s'.conn c).requestEntry = some e) :
    (s.conn c).requestEntry = some e ∨ f = .setEntry c e.request e.timer := by
  cases hm with
  | wait | abort | plain | unwind => exact .inl h
  | _ =>
    simp [Function.update_apply] at h
    grind -ring -linarith

theorem move_sent (hm : Move cfg s t fs input f s') {w : T} {e : Sent}
    (h : e ∈ (s'.transport w).requestsQueue) :
    e ∈ (s.transport w).requestsQueue ∨ f = .asyncSendRequest e.conn e.request e.timer := by
  cases hm with
  | wait | abort | plain | unwind => exact .inl h
  | _ =>
    simp [Function.update_apply] at h
    grind -ring -linarith

omit [DecidableEq T] in
theorem plain_request {gs : List Frame} (h : Plain cfg s t input f gs) {g : Frame} (hg : g ∈ gs) :
    (g.request = none ∨ g.request = f.request) ∧ (g.target = none ∨ g.target = f.target) := by
  cases h <;> simp at hg <;> grind -ring -linarith [Frame.request, Frame.target]

/-- What a frame that a step puts on the stack has to do with. -/
inductive Arises (cfg : Config T) (s : State T) (t : T) (input : Input) (f g : Frame) : Prop where
  /-- the request and the connection of the frame before it, if any -/
  | called : g.request = none ∨ g.request = f.request → g.target = none ∨ g.target = f.target →
    Arises cfg s t input f g
  | requests (c : ConnId) (r : Request) : g = .performImpl c r → r ∈ (s.conn c).requestsQueue →
    Arises cfg s t input f g
  | queue (c : ConnId) (r : Request) : g = .performImpl c r → f.target = some c →
    r ∈ s.queue c.host → Arises cfg s t input f g
  | sent (e : Sent) : g = .asyncSendRequestImpl e.conn e.request e.timer →
    e ∈ (s.transport t).requestsQueue → Arises cfg s t input f g
  /-- a connection that has been picked -/
  | picked (c : ConnId) : g.target = some c → c.index < cfg.maxConnectionsPerHost →
    (∀ r, g.request = some r → f.request = some r ∧ r.host = c.host) → Arises cfg s t input f g
  | asked (r : Request) : g = .pickConnection r 0 →
    input = .doRequest r.resource r.timeout r.size → r.id = s.requests.length →
    Arises cfg s t input f g

/-- A frame with a request calls nothing. -/
def State.Leaves (s : State T) : Prop := ∀ t, ∀ g ∈ (s.stack t).tail, g.request = none

theorem move_leaves (hstack : s.stack t = f :: fs) (hm : Move cfg s t fs input f s')
    (h : ∀ g ∈ fs, g.request = none) : ∀ g ∈ (s'.stack t).tail, g.request = none := by
  intro g hg
  cases hm with
  | wait | abort =>
    simp only [State.abort, hstack, List.tail_cons] at hg
    exact h g hg
  | plain hp => cases hp <;> simp at hg <;> grind -ring -linarith [Frame.request, List.mem_of_mem_tail]
  | _ => simp at hg <;> grind -ring -linarith [Frame.request, State.continuation, List.mem_of_mem_tail]

theorem move_frames (hstack : s.stack t = f :: fs) (hm : Move cfg s t fs input f s') {g : Frame}
    (hg : g ∈ s'.stack t) : g ∈ fs ∨ Arises cfg s t input f g := by
  cases hm with
  | wait | abort =>
    simp [hstack] at hg
    rcases hg with rfl | hg
    · exact .inr (.called (.inr rfl) (.inr rfl))
    · exact .inl hg
  | plain hp =>
    simp only [State.goto, Function.update_self, List.mem_append] at hg
    rcases hg with hg | hg
    · exact .inr (.called (plain_request hp hg).1 (plain_request hp hg).2)
    · exact .inl hg
  | _ => simp at hg <;> grind -ring -linarith [Frame.request, Frame.target, State.continuation, Arises]

/-- Requests stay under their host. -/
theorem move_keyed (hstack : s.stack t = f :: fs) (hm : Move cfg s t fs input f s')
    (h : s.Keyed cfg) : s'.Keyed cfg := by
  have hf : f ∈ s.stack t := hstack ▸ List.mem_cons_self
  have hframes : ∀ u g c, g ∈ s'.stack u → g.target = some c →
      c.index < cfg.maxConnectionsPerHost ∧ ∀ r, g.request = some r → r.host = c.host := by
    intro u g c hg hc
    by_cases hu : u = t
    · subst hu
      rcases move_frames hstack hm hg with hg | harises
      · have hg : g ∈ s.stack u := hstack ▸ List.mem_cons_of_mem _ hg
        exact ⟨h.target u g c hg hc, fun r => h.frame u g c r hg hc⟩
      · cases harises with
        | called hrequest htarget =>
          have htop : f.target = some c := by
            rcases htarget with hnone | hsame
            · rw [hnone] at hc
              cases hc
            · exact hsame ▸ hc
          refine ⟨h.target u f c hf htop, fun r hr => h.frame u f c r hf htop ?_⟩
          rcases hrequest with hnone | hsame
          · rw [hnone] at hr
            cases hr
          · exact hsame ▸ hr
        | requests c' r' hg hmem =>
          subst hg
          cases hc
          have hpooled := h.requests c r' hmem
          exact ⟨hpooled.2, fun r hr => Option.some.inj hr ▸ hpooled.1⟩
        | queue c' r' hg htop hmem =>
          subst hg
          cases hc
          exact ⟨h.target u f c hf htop, fun r hr => Option.some.inj hr ▸ h.queue c.host r' hmem⟩
        | sent e hg hmem =>
          subst hg
          cases hc
          have hpooled := h.sent u e hmem
          exact ⟨hpooled.2, fun r hr => Option.some.inj hr ▸ hpooled.1⟩
        | picked c' hc' hindex hrequest =>
          cases hc'.symm.trans hc
          exact ⟨hindex, fun r hr => (hrequest r hr).2⟩
        | asked r hg =>
          subst hg
          cases hc
    · rw [hm.stack, Function.update_of_ne hu] at hg
      exact ⟨h.target u g c hg hc, fun r => h.frame u g c r hg hc⟩
  refine ⟨fun u g c hg hc => (hframes u g c hg hc).1,
    fun u g c r hg hc => (hframes u g c hg hc).2 r, fun host r hmem => ?_, fun c r hmem => ?_,
    fun c e he => ?_, fun w e hmem => ?_⟩
  · rcases move_queue hm hmem with hold | ⟨-, hhost⟩
    · exact h.queue host r hold
    · exact hhost.symm
  · rcases move_requests hm hmem with hold | rfl
    · exact h.requests c r hold
    · exact ⟨h.frame t _ c r hf rfl rfl, h.target t _ c hf rfl⟩
  · rcases move_entry hm he with hold | rfl
    · exact h.entry c e hold
    · exact ⟨h.frame t _ c e.request hf rfl rfl, h.target t _ c hf rfl⟩
  · rcases move_sent hm hmem with hold | rfl
    · exact h.sent w e hold
    · exact ⟨h.frame t _ e.conn e.request hf rfl rfl, h.target t _ e.conn hf rfl⟩

end

theorem keyed_step {cfg : Config T} {s s' : State T} {event : Event T} (h : s.Keyed cfg)
    (hs : Happens cfg s event s') : s'.Keyed cfg := by
  cases hs with
  | nothing => exact h
  | tick => exact ⟨h.target, h.frame, h.queue, h.requests, h.entry, h.sent⟩
  | frame hstack hm => exact move_keyed hstack hm h
  | @poll t events hstack =>
    have hsame : ∀ c, (s.reported events c).requestsQueue = (s.conn c).requestsQueue ∧
        (s.reported events c).requestEntry = (s.conn c).requestEntry := by
      intro c
      unfold State.reported
      split <;> exact ⟨rfl, rfl⟩
    have hold : ∀ {u g c}, g ∈ Function.update s.stack t [.onReady events] u →
        g.target = some c → g ∈ s.stack u := by
      intro u g c hg hc
      by_cases hu : u = t
      · simp [hu] at hg
        rw [hg] at hc
        cases hc
      · simpa [hu] using hg
    exact ⟨fun u g c hg hc => h.target u g c (hold hg hc) hc,
      fun u g c r hg hc => h.frame u g c r (hold hg hc) hc, h.queue,
      fun c r hmem => h.requests c r ((hsame c).1 ▸ hmem),
      fun c e he => h.entry c e ((hsame c).2 ▸ he), h.sent⟩
  | @call t resource timeout size hstack =>
    have hold : ∀ {u g c}, g ∈ (s.call t resource timeout size []).stack u →
        g.target = some c → g ∈ s.stack u := by
      intro u g c hg hc
      by_cases hu : u = t
      · simp [hu] at hg
        rcases hg with rfl | rfl <;> cases hc
      · simpa [hu] using hg
    exact ⟨fun u g c hg hc => h.target u g c (hold hg hc) hc,
      fun u g c r hg hc => h.frame u g c r (hold hg hc) hc, h.queue, h.requests, h.entry, h.sent⟩

theorem leaves_step {cfg : Config T} {s s' : State T} {event : Event T} (h : s.Leaves)
    (hs : Happens cfg s event s') : s'.Leaves := by
  intro t g hg
  cases hs with
  | nothing | tick => exact h t g hg
  | @frame u input f fs _ hstack hm =>
    by_cases ht : t = u
    · subst ht
      refine move_leaves hstack hm (fun g hg => h t g ?_) g hg
      rwa [hstack]
    · rw [hm.stack, Function.update_of_ne ht] at hg
      exact h t g hg
  | @poll u events hstack =>
    by_cases ht : t = u
    · simp [ht] at hg
    · simp [ht] at hg
      exact h t g hg
  | @call u resource timeout size hstack =>
    by_cases ht : t = u
    · simp [ht] at hg
      rw [hg]
      rfl
    · simp [ht] at hg
      exact h t g hg

theorem leaves_run (cfg : Config T) (events : List (Event T)) : (run cfg start events).Leaves :=
  run_inv (by simp [State.Leaves, start]) (fun _ _ _ h hs => leaves_step h hs) events

omit [DecidableEq T] in
theorem keyed_start (cfg : Config T) : (start : State T).Keyed cfg :=
  ⟨by simp [start], by simp [start], by simp [start], by simp [start], by simp [start],
    by simp [start]⟩

/-- Requests stand under their host, in every run. -/
theorem keyed_run (cfg : Config T) (events : List (Event T)) :
    (run cfg start events).Keyed cfg :=
  run_inv (keyed_start cfg) (fun _ _ _ h hs => keyed_step h hs) events

end Pistache.Experimental
