import Pistache.Experimental.Connecting
import Pistache.Experimental.Timers

/-!
# Each request is settled

When nothing is in flight and no timer is armed, nothing is left to settle a request that is still
pending.

* `State.Answered` — a request in an entry has a timer, is on its way to the socket, or has an open
  socket.
* `State.Quiescent` — no call is under way, nothing is in the queues of the transports, no
  connection is being made, no response awaited, and no timer armed.
* `all_settled` — in settling runs, each request is settled then, once, and each connection is
  unused.
-/

set_option autoImplicit false

namespace Pistache.Experimental

open Stacks

variable {T : Type} [DecidableEq T]

/-! ## Requests in entries -/

/-- A request that is yet to be put into an entry, or is pending there, has its timer armed. -/
structure State.Clocked (s : State T) : Prop where
  frame : ∀ t c r k, .setEntry c r (some k) ∈ s.stack t → ((s.conn c).timers k).expiry ≠ none
  entry : ∀ c e k, (s.conn c).requestEntry = some e → s.outcomes e.request.id = [] →
    e.timer = some k → ((s.conn c).timers k).expiry ≠ none
  pool : ∀ c k, ((s.conn c).timers k).expiry ≠ none → k < timerPoolSize

/-- A pending request in an entry has a timer, is on its way, or has an open socket. -/
def State.Answered (s : State T) : Prop :=
  ∀ c e, (s.conn c).requestEntry = some e → s.outcomes e.request.id = [] →
    (e.timer ≠ none ∨ s.Underway c) ∨ (s.conn c).socket ≠ none

/-! ## Steps -/

section

variable {cfg : Config T} {s s' : State T} {t : T} {fs : List Frame} {input : Input} {f : Frame}

/-- What is settled stays settled. -/
theorem move_outcomes (hm : Move cfg s t fs input f s') {id : Nat} (h : s'.outcomes id = []) :
    s.outcomes id = [] := by
  cases hm with
  | wait | abort | plain | unwind => exact h
  | _ =>
    simp [Function.update_apply] at h
    grind -ring -linarith

/-- A request on its way comes to the socket, or ends. -/
theorem move_sends (hm : Move cfg s t fs input f s') (hstack : s.stack t = f :: fs) {c : ConnId}
    {e : RequestEntry} (he : (s.conn c).requestEntry = some e)
    (hpending : s'.outcomes e.request.id = []) (hf : f.sends c) :
    s'.Underway c ∨ (s'.conn c).socket ≠ none := by
  have hframe : ∀ g ∈ s'.stack t, g.sends c → s'.Underway c := fun g hg hsends =>
    .inl ⟨t, g, hg, hsends⟩
  cases hm with
  | wait | abort => exact .inl (hframe f (hstack ▸ List.mem_cons_self) hf)
  | plain hp =>
    cases hp with
    | @send_here c' r timer =>
      exact .inl (hframe (.asyncSendRequestImpl c' r timer) (by simp) hf)
    | @send_noFd c' r timer =>
      exact .inl (hframe (.handleError c' "Could not send request") (by simp) hf)
    | send_loop hopen =>
      simp [Frame.sends] at hf
      exact .inr (hf ▸ hopen)
    | error_none hnone =>
      simp [Frame.sends] at hf
      rw [hf, he] at hnone
      cases hnone
    | _ => cases hf
  | @post c' r timer w hw =>
    simp [Frame.sends] at hf
    exact .inl (.inr ⟨w, ⟨c', r, timer⟩, by simp, hf⟩)
  | reject he' =>
    simp [Frame.sends] at hf
    subst hf
    cases he.symm.trans he'
    simp at hpending
  | reject_throws hf' he' hsettled =>
    rcases hf' with ⟨error, rfl⟩ | rfl
    · simp [Frame.sends] at hf
      subst hf
      cases he.symm.trans he'
      exact absurd hpending hsettled
    · cases hf
  | _ => cases hf

/-- A request on its way stays so, until it comes to the socket. -/
theorem move_underway (hm : Move cfg s t fs input f s') (hstack : s.stack t = f :: fs)
    (hf : ∀ what, f ≠ .throwing what) {c : ConnId} {e : RequestEntry}
    (he : (s.conn c).requestEntry = some e) (hpending : s'.outcomes e.request.id = [])
    (h : s.Underway c) : s'.Underway c ∨ (s'.conn c).socket ≠ none := by
  rcases h with hframe | ⟨w, sent, hmem, rfl⟩
  · rcases move_occurs hm hstack hf hframe with htop | hkept
    · exact move_sends hm hstack he hpending htop
    · exact .inl (.inl hkept)
  · by_cases hkept : sent ∈ (s'.transport w).requestsQueue
    · exact .inl (.inr ⟨w, sent, hkept, rfl⟩)
    · refine .inl (.inl ⟨t, .asyncSendRequestImpl sent.conn sent.request sent.timer, ?_, ?_⟩)
      · cases hm with
        | wait | abort | plain | unwind => exact absurd hmem hkept
        | _ =>
          simp [Function.update_apply] at hkept ⊢
          grind -ring -linarith
      · simp [Frame.sends]

theorem move_answered [Fintype T] (hm : Move cfg s t fs input f s') (hstack : s.stack t = f :: fs)
    (hsettling : f.settling cfg s t input fs) (h : s.Answered) : s'.Answered := by
  have hf : ∀ what, f ≠ .throwing what := by
    rintro what rfl
    cases hsettling
  intro c e he hpending
  have hbefore := move_outcomes hm hpending
  by_cases hold : (s.conn c).requestEntry = some e
  · have hunderway : s.Underway c → (e.timer ≠ none ∨ s'.Underway c) ∨ (s'.conn c).socket ≠ none := by
      intro hunderway
      rcases move_underway hm hstack hf hold hpending hunderway with hkept | hopen
      · exact .inl (.inr hkept)
      · exact .inr hopen
    rcases h c e hold hbefore with (htimer | hunder) | hopen
    · exact .inl (.inl htimer)
    · exact hunderway hunder
    · rcases move_socket hm c with hsame | ⟨r, -, hopened⟩ | ⟨rfl, -⟩
      · exact .inr (hsame ▸ hopen)
      · exact .inr (by rw [hopened]; nofun)
      · have hspared : s.Spared c := by
          simp [Frame.settling] at hsettling
          exact hsettling.2
        rcases hspared e hold hbefore with htimer | hunder
        · exact .inl (.inl htimer)
        · exact hunderway hunder
  · obtain rfl := (move_entry hm he).resolve_left hold
    cases hm with
    | wait | abort => exact absurd he hold
    | plain hp => cases hp
    | setEntry =>
      exact .inl (.inr (.inl ⟨t, .asyncSendRequest c e.request e.timer, by simp,
        by simp [Frame.sends]⟩))
    | reject_throws hf' => rcases hf' with ⟨error, heq⟩ | heq <;> cases heq

/-- A step that ends a pending request settles it. -/
theorem move_ends (hm : Move cfg s t fs input f s') {c : ConnId} {e : RequestEntry}
    (hends : f.ends input c) (he : (s.conn c).requestEntry = some e)
    (hpending : s'.outcomes e.request.id = []) : s'.conn = s.conn := by
  have hbefore := move_outcomes hm hpending
  cases hm with
  | wait | abort | plain => rfl
  | reject he' | timeOut he' =>
    simp [Frame.ends] at hends
    subst hends
    cases he.symm.trans he'
    simp at hpending
  | resolve _ he' =>
    simp [Frame.ends] at hends
    obtain ⟨rfl, -⟩ := hends
    cases he.symm.trans he'
    simp at hpending
  | resolve_throws _ he' hsettled =>
    simp [Frame.ends] at hends
    obtain ⟨rfl, -⟩ := hends
    cases he.symm.trans he'
    exact absurd hbefore hsettled
  | reject_throws hf he' hsettled =>
    rcases hf with ⟨error, rfl⟩ | rfl
    · simp [Frame.ends] at hends
      subst hends
      cases he.symm.trans he'
      exact absurd hbefore hsettled
    · simp [Frame.ends] at hends
      subst hends
      cases he.symm.trans he'
      exact absurd hbefore hsettled
  | _ => cases hends

theorem move_pool (hm : Move cfg s t fs input f s') {c : ConnId} {k : Nat}
    (h : ((s.conn c).timers k).expiry ≠ none → k < timerPoolSize)
    (hexpiry : ((s'.conn c).timers k).expiry ≠ none) : k < timerPoolSize := by
  cases move_timer hm c k with
  | kept hsame => exact h (hsame ▸ hexpiry)
  | arms _ _ _ _ _ _ _ _ hlt => exact hlt
  | releases _ _ _ _ hnone => exact absurd hnone hexpiry

theorem move_clocked [Fintype T] (hm : Move cfg s t fs input f s') (hstack : s.stack t = f :: fs)
    (h : s.Clocked) (hstale : s.Stale) (husers : ∀ c, s.users c ≤ s.mark c) : s'.Clocked := by
  have hframe : ∀ u c r k, .setEntry c r (some k) ∈ s.stack u →
      ((s'.conn c).timers k).expiry ≠ none := by
    intro u c r k hg
    have hbefore := h.frame u c r k hg
    cases move_timer hm c k with
    | kept hsame => rwa [hsame]
    | arms _ _ _ _ _ harmed =>
      rw [harmed]
      nofun
    | releases e hends he =>
      -- the connection is with the request that is yet to be put into the entry
      exfalso
      by_cases hpending : s.outcomes e.request.id = []
      · have hparked : 1 ≤ s.parked c := by simp [State.parked, he, unsettled, hpending]
        have hzero := (users_parked (husers c) hparked).1 u _ hg
        simp [Frame.uses] at hzero
      · have hnone := (hstale c e he hpending).frames u _ hg
        simp [Frame.prepares] at hnone
  refine ⟨fun u c r k hg => ?_, fun c e k he hpending htimer => ?_,
    fun c k => move_pool hm (h.pool c k)⟩
  · rcases move_setEntry hm hstack hg with hold | ⟨-, -, harmed, -⟩
    · exact hframe u c r k hold
    · rw [harmed]
      nofun
  · rcases move_entry hm he with hold | rfl
    · have hbefore := h.entry c e k hold (move_outcomes hm hpending) htimer
      cases move_timer hm c k with
      | kept hsame => rwa [hsame]
      | arms _ _ _ _ _ harmed =>
      rw [harmed]
      nofun
      | releases e' hends he' =>
        cases hold.symm.trans he'
        rw [move_ends hm hends hold hpending]
        exact hbefore
    · exact hframe t c e.request k (by rw [hstack, htimer]; exact List.mem_cons_self)

end

/-! ## Runs -/

/-- An exception has been thrown. -/
def State.Thrown (s : State T) : Prop := ∃ t what, .throwing what ∈ s.stack t

/-- What settling runs keep. -/
structure State.Settling [Fintype T] (cfg : Config T) (s : State T) : Prop where
  ordered : s.Ordered cfg
  owned : s.Owned
  stale : s.Stale
  clocked : s.Clocked
  answered : s.Answered
  tended : s.Thrown ∨ s.Tended

section

variable [Fintype T] {cfg : Config T} {s s' : State T} {event : Event T}

omit [DecidableEq T] in
theorem settling_orderly (h : settling cfg s event) : orderly cfg s event := by
  cases event with
  | tick => rfl
  | thread t input =>
    simp only [settling, orderly] at h ⊢
    cases hstack : s.stack t with
    | nil => rfl
    | cons f fs =>
      rw [hstack] at h
      exact Frame.settling_orderly h

theorem thrown_step (h : s.Thrown) (hsettling : settling cfg s event)
    (hs : Happens cfg s event s') : s'.Thrown := by
  obtain ⟨u, what, hg⟩ := h
  cases hs with
  | nothing | tick => exact ⟨u, what, hg⟩
  | @frame t input f fs _ hstack hm =>
    have hframe : f.settling cfg s t input fs := by simpa only [settling, hstack] using hsettling
    have hf : ∀ what, f ≠ .throwing what := by
      rintro what rfl
      cases hframe
    refine ⟨u, what, ?_⟩
    by_cases hu : u = t
    · subst hu
      rw [hstack] at hg
      rcases List.mem_cons.mp hg with rfl | hg
      · exact absurd rfl (hf what)
      · exact hm.below hstack hf hg
    · rwa [hm.stack, Function.update_of_ne hu]
  | poll hstack => exact ⟨u, what, (Begins.poll hstack).kept hg⟩
  | call hstack => exact ⟨u, what, (Begins.call hstack).kept hg⟩

omit [Fintype T] in
theorem State.Clocked.begun {t : T} {gs : List Frame} (h : s.Clocked) (hb : Begins s s' t gs)
    (hgs : ∀ g ∈ gs, ∀ c, g.uses c = 0) : s'.Clocked := by
  have htimers := fun c => congrArg Connection.timers (hb.conn c)
  refine ⟨fun u c r k hg => ?_, fun c e k he hpending htimer => ?_, fun c k => ?_⟩
  · rw [htimers]
    rcases hb.old hg with hg | hg
    · exact h.frame u c r k hg
    · have hnone := hgs _ hg c
      simp [Frame.uses] at hnone
  · rw [hb.conn c] at he
    rw [hb.outcomes] at hpending
    rw [htimers]
    exact h.entry c e k he hpending htimer
  · rw [htimers]
    exact h.pool c k

theorem clocked_step (h : s.Clocked) (hstale : s.Stale) (husers : ∀ c, s.users c ≤ s.mark c)
    (hs : Happens cfg s event s') : s'.Clocked := by
  cases hs with
  | nothing => exact h
  | tick => exact ⟨h.frame, h.entry, h.pool⟩
  | frame hstack hm => exact move_clocked hm hstack h hstale husers
  | poll hstack =>
    refine h.begun (.poll hstack) fun g hg c => ?_
    rw [List.mem_singleton.mp hg]
    rfl
  | call hstack =>
    refine h.begun (.call hstack) fun g hg c => ?_
    simp only [List.mem_cons, List.not_mem_nil, or_false] at hg
    rcases hg with rfl | rfl <;> rfl

omit [Fintype T] in
theorem State.Answered.begun {t : T} {gs : List Frame} (h : s.Answered)
    (hb : Begins s s' t gs) : s'.Answered := by
  intro c e he hpending
  rw [hb.conn c] at he ⊢
  rw [hb.outcomes] at hpending
  rcases h c e he hpending with (htimer | hframe | hsent) | hopen
  · exact .inl (.inl htimer)
  · obtain ⟨u, g, hg, hsends⟩ := hframe
    exact .inl (.inr (.inl ⟨u, g, hb.kept hg, hsends⟩))
  · exact .inl (.inr (.inr (hb.transport ▸ hsent)))
  · exact .inr hopen

theorem answered_step (h : s.Answered) (hsettling : settling cfg s event)
    (hs : Happens cfg s event s') : s'.Answered := by
  cases hs with
  | nothing => exact h
  | tick => exact h
  | frame hstack hm =>
    exact move_answered hm hstack (by simpa only [settling, hstack] using hsettling) h
  | poll hstack => exact h.begun (.poll hstack)
  | call hstack => exact h.begun (.call hstack)

theorem settling_step (h : s.Settling cfg) (hsettling : settling cfg s event)
    (hs : Happens cfg s event s') : s'.Settling cfg := by
  refine ⟨ordered_step h.ordered (settling_orderly hsettling) hs, owned_step h.owned hs,
    stale_step h.stale h.ordered.sound.users hs,
    clocked_step h.clocked h.stale h.ordered.sound.users hs,
    answered_step h.answered hsettling hs, ?_⟩
  rcases h.tended with hthrown | htended
  · exact .inl (thrown_step hthrown hsettling hs)
  · by_cases hthrown : s'.Thrown
    · exact .inl hthrown
    · exact .inr (tended_step htended h.owned hsettling
        (fun t what hg => hthrown ⟨t, what, hg⟩) hs)

end

theorem settling_run [Fintype T] (cfg : Config T) {events : List (Event T)}
    (h : Machine.Always (next cfg) (fun s event => settling cfg s event) start events) :
    (run cfg start events).Settling cfg := by
  refine always_inv (P := fun s event => settling cfg s event) (I := State.Settling cfg)
    ⟨ordered_start cfg, ?_, by simp [State.Stale, start], ?_, by simp [State.Answered, start],
      .inr ⟨fun t => trivial, by simp [start], by simp [start], fun c hw => ?_, fun c hw => ?_,
        by simp [start]⟩⟩
    (fun _ _ _ h hsettling hs => settling_step h hsettling hs) h
  · exact ⟨by simp [start], by simp [start], by simp [start], by simp [start]⟩
  · exact ⟨by simp [start], by simp [start], by simp [start]⟩
  · simp [State.Wanted, Occurs, start] at hw
  · simp [State.Wanted, Occurs, start] at hw

/-! ## Quiescent states -/

/-- The connection is not being made, no timer of it is armed, and no response is to come. -/
structure Connection.Still (conn : Connection T) (outcomes : Nat → List Outcome) : Prop where
  connecting : conn.watch ≠ .write
  timers : ∀ k < timerPoolSize, (conn.timers k).expiry = none
  response : conn.socket ≠ none → conn.listed → conn.watch = .read →
    unsettled outcomes conn.requestEntry = 0

/-- Nothing is in flight, no handler is running, and no timer is armed. -/
structure State.Quiescent (cfg : Config T) (s : State T) : Prop where
  calls : s.AtRest
  connections : ∀ t, (s.transport t).connectionsQueue = []
  sends : ∀ t, (s.transport t).requestsQueue = []
  pools : ∀ r ∈ s.requests, ∀ i < cfg.maxConnectionsPerHost,
    (s.conn ⟨r.host, i⟩).Still s.outcomes

instance (conn : Connection T) (outcomes : Nat → List Outcome) :
    Decidable (conn.Still outcomes) :=
  decidable_of_iff (conn.watch ≠ .write ∧ (∀ k < timerPoolSize, (conn.timers k).expiry = none) ∧
      (conn.socket ≠ none → conn.listed → conn.watch = .read →
        unsettled outcomes conn.requestEntry = 0))
    ⟨fun h => ⟨h.1, h.2.1, h.2.2⟩, fun h => ⟨h.1, h.2, h.3⟩⟩

instance [Fintype T] (cfg : Config T) (s : State T) : Decidable (s.Quiescent cfg) :=
  decidable_of_iff (s.AtRest ∧ (∀ t, (s.transport t).connectionsQueue = []) ∧
      (∀ t, (s.transport t).requestsQueue = []) ∧
      ∀ r ∈ s.requests, ∀ i < cfg.maxConnectionsPerHost, (s.conn ⟨r.host, i⟩).Still s.outcomes)
    ⟨fun h => ⟨h.1, h.2.1, h.2.2.1, h.2.2.2⟩, fun h => ⟨h.1, h.2, h.3, h.4⟩⟩

section

variable [Fintype T] {cfg : Config T} {s : State T}

omit [DecidableEq T] [Fintype T] in
theorem State.Quiescent.nothing (hquiet : s.Quiescent cfg) {P : Frame → Prop} :
    ¬ Occurs P s.stack := by
  rintro ⟨t, g, hg, -⟩
  rw [hquiet.calls t] at hg
  cases hg

omit [DecidableEq T] [Fintype T] in
theorem State.Quiescent.not_asked (hquiet : s.Quiescent cfg) (c : ConnId) : ¬ s.Asked c := by
  rintro ⟨w, hw⟩
  rw [hquiet.connections w] at hw
  cases hw

omit [DecidableEq T] [Fintype T] in
theorem State.Quiescent.not_underway (hquiet : s.Quiescent cfg) (c : ConnId) :
    ¬ s.Underway c := by
  rintro (hframe | ⟨w, e, he, -⟩)
  · exact hquiet.nothing hframe
  · rw [hquiet.sends w] at he
    cases he

omit [DecidableEq T] [Fintype T] in
theorem State.Quiescent.still (hquiet : s.Quiescent cfg) {r : Request} (hr : r ∈ s.requests)
    {c : ConnId} (hpooled : Pooled cfg r.host c) : (s.conn c).Still s.outcomes := by
  obtain ⟨host, i⟩ := c
  obtain ⟨rfl, hi⟩ := hpooled
  exact hquiet.pools r hr i hi

omit [DecidableEq T] [Fintype T] in
/-- Nothing is left of the attempts to connect. -/
theorem State.Quiescent.connected (hquiet : s.Quiescent cfg) (htended : s.Tended) {c : ConnId}
    (hstill : (s.conn c).Still s.outcomes) : (s.conn c).requestsQueue = [] := by
  by_contra hqueue
  rcases htended.requests c hqueue with hframe | ⟨hattached, hpending⟩
  · exact hquiet.nothing hframe
  · rcases htended.wanted c ⟨hpending, .inl hattached⟩ with hasked | hwrite | hframe
    · exact hquiet.not_asked c hasked
    · exact hstill.connecting hwrite
    · exact hquiet.nothing hframe

omit [DecidableEq T] [Fintype T] in
/-- Nothing is left of the requests in entries. -/
theorem State.Quiescent.answered (hquiet : s.Quiescent cfg) (htended : s.Tended)
    (hclocked : s.Clocked) (hanswered : s.Answered) {c : ConnId}
    (hstill : (s.conn c).Still s.outcomes) {e : RequestEntry}
    (he : (s.conn c).requestEntry = some e) : s.outcomes e.request.id ≠ [] := by
  intro hpending
  rcases hanswered c e he hpending with (htimer | hunderway) | hopen
  · obtain ⟨k, hk⟩ := Option.ne_none_iff_exists'.mp htimer
    have hexpiry := hclocked.entry c e k he hpending hk
    exact hexpiry (hstill.timers k (hclocked.pool c k hexpiry))
  · exact hquiet.not_underway c hunderway
  · rcases htended.watched c hopen with hasked | hframe | ⟨hlisted, hwatch | hframe | hframe⟩
    · exact hquiet.not_asked c hasked
    · exact hquiet.nothing hframe
    · have hread : (s.conn c).watch = .read := by
        cases hw : (s.conn c).watch with
        | none => exact absurd hw hwatch
        | write => exact absurd hw hstill.connecting
        | read => rfl
      have hnone := hstill.response hopen hlisted hread
      simp [unsettled, he, hpending] at hnone
    · exact hquiet.nothing hframe
    · exact hquiet.nothing hframe

omit [DecidableEq T] in
theorem State.Settling.tended_of_quiescent (h : s.Settling cfg) (hquiet : s.Quiescent cfg) :
    s.Tended := by
  rcases h.tended with ⟨t, what, hg⟩ | htended
  · rw [hquiet.calls t] at hg
    cases hg
  · exact htended

omit [DecidableEq T] in
/-- No request is with a connection. -/
theorem State.Settling.not_parked (h : s.Settling cfg) (hquiet : s.Quiescent cfg) (c : ConnId) :
    s.parked c = 0 := by
  have htended := h.tended_of_quiescent hquiet
  by_contra hparked
  obtain ⟨r, hr, hserves, hpending⟩ :=
    h.ordered.sound.accounted.parked h.ordered.sound.keyed (Nat.pos_of_ne_zero hparked)
  rcases hserves with hmem | ⟨timer, he⟩
  · have hstill := hquiet.still hr (h.ordered.sound.keyed.requests c r hmem)
    rw [hquiet.connected htended hstill] at hmem
    cases hmem
  · have hstill := hquiet.still hr (h.ordered.sound.keyed.entry c _ he)
    exact hquiet.answered htended h.clocked h.answered hstill he hpending

omit [DecidableEq T] in
theorem State.Settling.unused (h : s.Settling cfg) (hquiet : s.Quiescent cfg) (c : ConnId) :
    (s.conn c).used = false := by
  have hmarked := h.ordered.marked c
  rw [State.users, total_empty hquiet.calls, h.not_parked hquiet] at hmarked
  by_contra hused
  rw [State.mark, if_pos (Bool.eq_true_of_not_eq_false hused)] at hmarked
  omega

omit [DecidableEq T] in
/-- No request has a place. -/
theorem State.Settling.no_places (h : s.Settling cfg) (hquiet : s.Quiescent cfg)
    (hmax : 0 < cfg.maxConnectionsPerHost) (r : Request) : s.places cfg r = 0 := by
  have hqueue : s.queue r.host = [] := by
    by_contra hqueue
    rcases h.ordered.attended.covered r.host hqueue 0 hmax with hused | ⟨t, ht⟩
    · rw [h.unused hquiet] at hused
      cases hused
    · rw [hquiet.calls t] at ht
      cases ht
  have hwaiting : ∀ c, s.waiting r c = 0 := by
    intro c
    have hparked := h.not_parked hquiet c
    have hcount := List.count_le_length (a := r) (l := (s.conn c).requestsQueue)
    have hawaits := awaits_le s.outcomes r (s.conn c).requestEntry
    unfold State.parked at hparked
    unfold State.waiting
    omega
  simp only [State.places, total_empty hquiet.calls, hqueue, hwaiting, List.count_nil,
    Finset.sum_const_zero, Nat.add_zero]

end

/-- The socket can not be made, or `connect` fails at once. -/
def connectFails : List (Event Bool) :=
  [caller (.doRequest (lit "h") 0 5), caller .go, caller .go, caller (.connect false), caller .go,
    caller .go]

/-- The connection is refused. -/
def connectRefused : List (Event Bool) :=
  (connecting (lit "h") 0).take 11 ++ [worker (.poll [.socket first .hangup]), worker .go, worker .go]

/-- The remote closes behind a part of a response. -/
def closedEarly : List (Event Bool) :=
  connecting (lit "h") 0 ++ performing ++
    [worker (.poll [.socket first .readable]), worker .go, worker (.recv .bytes),
      worker (.recv .closed), worker (.parse .Again), worker .go, worker .go]

/-- The run ends in a quiescent state in which its request is not settled and its connection is
still used. -/
def leftPending (events : List (Event Bool)) : Prop :=
  (run small start events).Quiescent small ∧ (run small start events).requests ≠ [] ∧
    (run small start events).outcomes 0 = [] ∧ ((run small start events).conn first).used = true

instance (events : List (Event Bool)) : Decidable (leftPending events) := by
  unfold leftPending; infer_instance

end Pistache.Experimental
