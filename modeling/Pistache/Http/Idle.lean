import Pistache.Http.Handler
import Pistache.Lib.Machine

/-!
# Idle peers

The idle flag of a peer and the time of its parser, which are set in different places: by
`onInput`, by `ResponseWriter::send` and by the check of the endpoint for idle peers.

* `right_step_iff` — one event keeps the flag right exactly when it does not reach one of the
  places that leave it alone or set it too early.
* `idle_peers` — all runs of such events, and what the check does in the states reached.

The peers do not concern each other, so this is one of them.  A request is handed to
`onRequest` and answered once, at any time after that.
-/

set_option autoImplicit false

namespace Pistache.Http

variable {H : Type}

/-- The options of the endpoint, in milliseconds. -/
structure Timeouts where
  headerTimeout_ : Nat
  bodyTimeout_ : Nat
  keepaliveTimeout_ : Nat

namespace Timeouts

/-- `checkTimeout`; the step is that of the parser. -/
def checkTimeout (timeouts : Timeouts) (idle : Bool) (step elapsed : Nat) : Bool :=
  if idle then elapsed > timeouts.keepaliveTimeout_
  else
    match step with
    | 0 | 1 => elapsed > timeouts.headerTimeout_ || elapsed > timeouts.bodyTimeout_
    | 2 => elapsed > timeouts.bodyTimeout_
    | _ => false

end Timeouts

/-- A peer is connected, has been sent a 408 behind which it is removed, or has been removed. -/
inductive Standing where
  | connected
  | timedOut
  | removed
  deriving DecidableEq

/-- How a handler answers a request. -/
inductive Answering where
  | send
  | sendMethodNotAllowed
  | serveFile
  | streamEnds
  deriving DecidableEq

/-- What `closePeer` does. -/
inductive Closing where
  | removePeer
  | requestTimeout
  deriving DecidableEq

/-- A peer with its parser and the clock.  `awaiting` counts the requests that have been handed
to `onRequest` and not been answered. -/
structure Peer (H : Type) where
  parser : ParserBase H RequestLine
  time_ : Nat
  now : Nat
  isIdle_ : Bool := false
  received : Bool := false
  awaiting : Nat := 0
  standing : Standing := .connected

namespace Peer

inductive Event where
  | input (data : Bytes)
  | respond (how : Answering)
  | elapse (milliseconds : Nat)
  | checkIdlePeers
  /-- The 408 has been written. -/
  | written

/-- A peer that has just connected. -/
def new (maxRequestSize now : Nat) : Peer H :=
  { parser := RequestParser.new maxRequestSize, time_ := now, now }

/-- `Handler::onInput`: the flag and the time of the parser, which is reset but for a request
that has only begun.  An error that follows `onRequest` is the answer to its request. -/
def onInput (handler : Handler H) (p : Peer H) (data : Bytes) : Peer H :=
  let (events, parser) := handler.onInput p.parser data
  match events.getLast? with
  | none => { p with parser, received := true }
  | some (.onRequest ..) =>
    { p with parser, received := true, time_ := p.now, isIdle_ := false, awaiting := p.awaiting + 1 }
  | some (.send ..) => { p with parser, received := true, time_ := p.now, isIdle_ := true }

/-- Only `ResponseWriter::send` sets the flag. -/
def respond (p : Peer H) (how : Answering) : Peer H :=
  { p with awaiting := p.awaiting - 1, isIdle_ := if how = .send then true else p.isIdle_ }

/-- What `checkIdlePeers` does with the peer. -/
def closing (timeouts : Timeouts) (p : Peer H) : Option Closing :=
  if timeouts.checkTimeout p.isIdle_ p.parser.currentStep (p.now - p.time_) then
    if p.isIdle_ then some .removePeer else some .requestTimeout
  else none

def checkIdlePeers (timeouts : Timeouts) (p : Peer H) : Peer H :=
  match p.closing timeouts with
  | none => p
  | some .removePeer => { p with standing := .removed }
  | some .requestTimeout => { p with isIdle_ := true, standing := .timedOut }

/-- A read of nothing is the disconnection of the peer. -/
def step (handler : Handler H) (timeouts : Timeouts) (p : Peer H) (event : Event) : Peer H :=
  if p.standing = .removed then p
  else match event with
  | .input data => if data = [] then { p with standing := .removed } else p.onInput handler data
  | .respond how => if p.awaiting = 0 then p else p.respond how
  | .elapse milliseconds => { p with now := p.now + milliseconds }
  | .checkIdlePeers => p.checkIdlePeers timeouts
  | .written => if p.standing = .timedOut then { p with standing := .removed } else p

/-- A request is partly received. -/
def Partly (p : Peer H) : Prop := p.parser.buffer.bytes ≠ []

instance (p : Peer H) : Decidable p.Partly := instDecidableNot

/-- A request of the peer is partly received or still awaiting its response. -/
def HasRequest (p : Peer H) : Prop := p.Partly ∨ 0 < p.awaiting

instance (p : Peer H) : Decidable p.HasRequest := instDecidableOr

/-- The flag says that something has been received and no request is there. -/
def Right (p : Peer H) : Prop := p.isIdle_ = true ↔ p.received = true ∧ ¬ p.HasRequest

/-- The event does not reach a place at which the flag is forgotten or set too early: a request
that begins while the flag is set, one that fails while another awaits its response, the last
request answered by something else than `send`, and another by `send`. -/
def Orderly (handler : Handler H) (p : Peer H) : Event → Prop
  | .input data =>
    match (handler.onInput p.parser data).1.getLast? with
    | none => p.received = true → p.HasRequest
    | some (.onRequest ..) => True
    | some (.send ..) => p.awaiting = 0
  | .respond how => 0 < p.awaiting → (how = .send ↔ p.awaiting = 1 ∧ ¬ p.Partly)
  | _ => True

/-! ## One event -/

variable {handler : Handler H} {timeouts : Timeouts} {p : Peer H}

/-- Behind a segment a request has begun, or the parser has been reset. -/
theorem onInput_bytes (handler : Handler H) (parser : ParserBase H RequestLine) {data : Bytes}
    (hdata : data ≠ []) :
    ((handler.onInput parser data).1 = [] ∧ (handler.onInput parser data).2.buffer.bytes ≠ []) ∨
      ((handler.onInput parser data).1 ≠ [] ∧ (handler.onInput parser data).2.buffer.bytes = []) := by
  cases hfeed : parser.feed data with
  | none =>
    obtain ⟨event, he, -⟩ := onInput_refused handler hfeed
    rw [he]
    exact .inr ⟨List.cons_ne_nil _ _, rfl⟩
  | some fed =>
    rcases onInput_fed handler hfeed with ⟨-, he⟩ | ⟨-, event, events, he⟩
    · rw [he]
      refine .inl ⟨rfl, ?_⟩
      rw [parse_bytes]
      obtain ⟨buffer, hbuffer, rfl⟩ := Option.map_eq_some_iff.mp hfeed
      obtain ⟨-, rfl⟩ := ArrayStreamBuf.feed_eq_some.mp hbuffer
      simp [ArrayStreamBuf.bytes, hdata]
    · rw [he]
      exact .inr ⟨List.cons_ne_nil _ _, rfl⟩

theorem right_onInput_iff (h : p.Right) {data : Bytes} (hdata : data ≠ []) :
    (p.onInput handler data).Right ↔ p.Orderly handler (.input data) := by
  have hbytes := onInput_bytes handler p.parser hdata
  simp only [Peer.onInput, Orderly]
  generalize handler.onInput p.parser data = o at hbytes ⊢
  obtain ⟨events, parser⟩ := o
  dsimp only at hbytes ⊢
  cases hlast : events.getLast? with
  | none =>
    -- a request has begun, and the flag is left alone
    obtain rfl := List.getLast?_eq_none_iff.mp hlast
    have hpartly : parser.buffer.bytes ≠ [] := (hbytes.resolve_right fun h => h.1 rfl).2
    have hidle : (p.isIdle_ = true ↔ p.received = true ∧ ¬ p.HasRequest) := h
    simp only [Right, HasRequest, Partly, hpartly, ne_eq, not_false_eq_true, true_or, not_true,
      and_false, iff_false, hidle, not_and, not_not]
  | some event =>
    have hne : events ≠ [] := by
      rintro rfl
      cases hlast
    have hnil : parser.buffer.bytes = [] := (hbytes.resolve_left fun h => hne h.1).2
    cases event with
    | onRequest request connection => simp [Right, HasRequest]
    | send version code text => simp [Right, HasRequest, Partly, hnil]

theorem right_respond_iff (h : p.Right) (hreceived : p.HasRequest → p.received = true)
    {how : Answering} (hpos : 0 < p.awaiting) :
    (p.respond how).Right ↔ (how = .send ↔ p.awaiting = 1 ∧ ¬ p.Partly) := by
  have hgot : p.received = true := hreceived (.inr hpos)
  have hidle : p.isIdle_ = false := by
    by_contra hne
    have htrue : p.isIdle_ = true := by simpa using hne
    exact (h.mp htrue).2 (.inr hpos)
  have hlast : ¬ (p.respond how).HasRequest ↔ p.awaiting = 1 ∧ ¬ p.Partly := by
    unfold HasRequest Peer.respond Partly
    dsimp only
    rw [not_or]
    constructor
    · rintro ⟨hp, ha⟩
      exact ⟨by omega, hp⟩
    · rintro ⟨ha, hp⟩
      exact ⟨hp, by omega⟩
  have hflag : (p.respond how).isIdle_ = true ↔ how = .send := by
    unfold Peer.respond
    by_cases hsend : how = .send
    · simp [hsend]
    · simp [hsend, hidle]
  have hgot' : (p.respond how).received = true := hgot
  unfold Right
  rw [hflag, hlast, and_iff_right hgot']

/-- **One event**, as long as the peer stays connected. -/
theorem right_step_iff (h : p.Right) (hreceived : p.HasRequest → p.received = true)
    (hp : p.standing = .connected) (event : Event)
    (hstanding : (p.step handler timeouts event).standing = .connected) :
    (p.step handler timeouts event).Right ↔ p.Orderly handler event := by
  have hthere : p.standing ≠ .removed := by
    rw [hp]
    exact Standing.noConfusion
  unfold Peer.step at hstanding ⊢
  rw [if_neg hthere] at hstanding ⊢
  cases event with
  | input data =>
    dsimp only at hstanding ⊢
    by_cases hdata : data = []
    · rw [if_pos hdata] at hstanding
      cases hstanding
    · rw [if_neg hdata]
      exact right_onInput_iff h hdata
  | respond how =>
    dsimp only
    by_cases hzero : p.awaiting = 0
    · rw [if_pos hzero]
      exact iff_of_true h fun hpos => absurd hzero hpos.ne'
    · rw [if_neg hzero, right_respond_iff h hreceived (Nat.pos_of_ne_zero hzero)]
      exact ⟨fun h _ => h, fun h => h (Nat.pos_of_ne_zero hzero)⟩
  | elapse milliseconds => exact iff_of_true h trivial
  | checkIdlePeers =>
    refine iff_of_true ?_ trivial
    dsimp only at hstanding ⊢
    unfold Peer.checkIdlePeers at hstanding ⊢
    cases hclosing : p.closing timeouts with
    | none => exact h
    | some closing =>
      rw [hclosing] at hstanding
      cases closing <;> cases hstanding
  | written =>
    dsimp only
    rw [hp, if_neg Standing.noConfusion]
    exact iff_of_true h trivial

/-- A request is there only when something has been received. -/
theorem received_step (hreceived : p.HasRequest → p.received = true) (event : Event) :
    (p.step handler timeouts event).HasRequest → (p.step handler timeouts event).received = true := by
  unfold Peer.step
  split
  · exact hreceived
  · cases event with
    | input data =>
      dsimp only
      split
      · exact hreceived
      · intro _
        unfold Peer.onInput
        dsimp only
        split <;> rfl
    | respond how =>
      dsimp only
      split
      · exact hreceived
      · rintro (hp | ha)
        · exact hreceived (.inl hp)
        · refine hreceived (.inr ?_)
          unfold Peer.respond at ha
          dsimp only at ha
          omega
    | elapse milliseconds => exact hreceived
    | checkIdlePeers =>
      dsimp only
      unfold Peer.checkIdlePeers
      split <;> exact hreceived
    | written =>
      dsimp only
      split <;> exact hreceived

/-- A peer that has been timed out or removed is not connected again. -/
theorem standing_step (hp : p.standing ≠ .connected) (event : Event) :
    (p.step handler timeouts event).standing ≠ .connected := by
  unfold Peer.step
  split
  · exact hp
  · cases event with
    | input data =>
      dsimp only
      split
      · exact Standing.noConfusion
      · unfold Peer.onInput
        dsimp only
        split <;> exact hp
    | respond how =>
      dsimp only
      split <;> exact hp
    | elapse milliseconds => exact hp
    | checkIdlePeers =>
      dsimp only
      unfold Peer.checkIdlePeers
      split
      · exact hp
      · exact Standing.noConfusion
      · exact Standing.noConfusion
    | written =>
      dsimp only
      split
      · exact Standing.noConfusion
      · exact hp

/-- What the check does, by the flag. -/
theorem closing_eq_some {closing : Closing} (h : p.closing timeouts = some closing) :
    closing = (if p.isIdle_ then .removePeer else .requestTimeout) ∧
      timeouts.checkTimeout p.isIdle_ p.parser.currentStep (p.now - p.time_) = true := by
  unfold Peer.closing at h
  by_cases hcheck : timeouts.checkTimeout p.isIdle_ p.parser.currentStep (p.now - p.time_) = true
  · rw [if_pos hcheck] at h
    refine ⟨?_, hcheck⟩
    by_cases hidle : p.isIdle_ = true
    · rw [if_pos hidle] at h ⊢
      exact (Option.some.inj h).symm
    · rw [if_neg hidle] at h ⊢
      exact (Option.some.inj h).symm
  · rw [if_neg hcheck] at h
    cases h

end Peer

open Peer in
/-- **Idle peers**: in a run of orderly events, as long as the peer is connected, it is idle
exactly when something has been received from it and no request of it is partly received or
awaiting its response.  The check removes silently only a peer without such a request, and sends
a 408 only to a peer that has sent nothing yet or has such a request; the time that has passed is
that since the connection or the last reset of the parser. -/
theorem idle_peers (handler : Handler H) (timeouts : Timeouts) (maxRequestSize start : Nat)
    (events : List Peer.Event)
    (horderly : Machine.Always (Peer.step handler timeouts) (Orderly handler)
      (Peer.new maxRequestSize start) events)
    (hconnected : (Machine.run (Peer.step handler timeouts) (Peer.new maxRequestSize start)
      events).standing = .connected) :
    let p := Machine.run (Peer.step handler timeouts) (Peer.new maxRequestSize start) events
    (p.isIdle_ = true ↔ p.received = true ∧ ¬ p.HasRequest) ∧
      (p.closing timeouts = some .removePeer → p.received = true ∧ ¬ p.HasRequest ∧
        p.now - p.time_ > timeouts.keepaliveTimeout_) ∧
      (p.closing timeouts = some .requestTimeout → (p.received = true → p.HasRequest) ∧
        ((p.parser.currentStep < 2 ∧ (p.now - p.time_ > timeouts.headerTimeout_ ∨
            p.now - p.time_ > timeouts.bodyTimeout_)) ∨
          (p.parser.currentStep = 2 ∧ p.now - p.time_ > timeouts.bodyTimeout_))) := by
  have hstep : ∀ (p : Peer H) event,
      (p.standing = .connected → p.Right) ∧ (p.HasRequest → p.received = true) →
      p.Orderly handler event →
      ((p.step handler timeouts event).standing = .connected →
        (p.step handler timeouts event).Right) ∧
      ((p.step handler timeouts event).HasRequest →
        (p.step handler timeouts event).received = true) := by
    rintro p event ⟨hright, hreceived⟩ horderly
    refine ⟨fun hstanding => ?_, received_step hreceived event⟩
    by_cases hp : p.standing = .connected
    · exact (right_step_iff (hright hp) hreceived hp event hstanding).mpr horderly
    · exact absurd hstanding (standing_step hp event)
  have hnew : ¬ (Peer.new maxRequestSize start : Peer H).HasRequest := by
    rintro (h | h)
    · exact h rfl
    · exact absurd h (Nat.lt_irrefl 0)
  have hright : (Peer.new maxRequestSize start : Peer H).Right :=
    iff_of_false Bool.false_ne_true fun h => Bool.false_ne_true h.1
  have h := (Machine.Always.inv hstep events (Peer.new maxRequestSize start)
    ⟨fun _ => hright, fun h => absurd h hnew⟩ horderly).1 hconnected
  generalize Machine.run (Peer.step handler timeouts) (Peer.new maxRequestSize start) events = p at h
  refine ⟨h, fun hclosing => ?_, fun hclosing => ?_⟩
  · obtain ⟨hif, hcheck⟩ := closing_eq_some hclosing
    by_cases hidle : p.isIdle_ = true
    · obtain ⟨hreceived, hnone⟩ := h.mp hidle
      refine ⟨hreceived, hnone, ?_⟩
      simpa [Timeouts.checkTimeout, hidle] using hcheck
    · rw [if_neg hidle] at hif
      cases hif
  · obtain ⟨hif, hcheck⟩ := closing_eq_some hclosing
    by_cases hidle : p.isIdle_ = true
    · rw [if_pos hidle] at hif
      cases hif
    · refine ⟨fun hreceived => by_contra fun hnone => hidle (h.mpr ⟨hreceived, hnone⟩), ?_⟩
      rw [Bool.not_eq_true] at hidle
      rw [hidle] at hcheck
      generalize p.parser.currentStep = k at hcheck ⊢
      match k, hcheck with
      | 0, hcheck => exact .inl ⟨by omega, by simpa [Timeouts.checkTimeout] using hcheck⟩
      | 1, hcheck => exact .inl ⟨by omega, by simpa [Timeouts.checkTimeout] using hcheck⟩
      | 2, hcheck => exact .inr ⟨rfl, by simpa [Timeouts.checkTimeout] using hcheck⟩

/-! ### Some connections -/

/-- A minute for heads and bodies, five for idle peers. -/
def usual : Timeouts := ⟨60000, 60000, 300000⟩

def aRequest : Bytes := lit "GET / HTTP/1.1\r\n\r\n"

/-- A request in two segments, and its response. -/
def answered : List Peer.Event :=
  [.input (lit "GET / HT"), .elapse 10, .input (lit "TP/1.1\r\n\r\n"), .respond .send]

theorem idle_peers_answered :
    let p := Machine.run (Peer.step Handler.quiet usual) (Peer.new 4096 0) answered
    (p.isIdle_ = true ↔ p.received = true ∧ ¬ p.HasRequest) ∧
      (p.closing usual = some .removePeer → p.received = true ∧ ¬ p.HasRequest ∧
        p.now - p.time_ > usual.keepaliveTimeout_) ∧
      (p.closing usual = some .requestTimeout → (p.received = true → p.HasRequest) ∧
        ((p.parser.currentStep < 2 ∧ (p.now - p.time_ > usual.headerTimeout_ ∨
            p.now - p.time_ > usual.bodyTimeout_)) ∨
          (p.parser.currentStep = 2 ∧ p.now - p.time_ > usual.bodyTimeout_))) := by
  refine idle_peers Handler.quiet usual 4096 0 answered ⟨?_, trivial, ?_, ?_, trivial⟩ (by decide)
  · exact fun h => absurd h (by decide)
  · exact trivial
  · exact fun _ => by decide

/-- A peer that only connects is sent a 408, and one to which a file has been served; one whose
next request has begun is idle, and one of whose two requests is still awaiting its response. -/
theorem onlyConnected_timedOut :
    let p : List Peer.Event → Peer Unit :=
      Machine.run (Peer.step Handler.quiet usual) (Peer.new 4096 0)
    ((p []).isIdle_ = false ∧ ¬ (p []).HasRequest ∧
        (p [.elapse 60001]).closing usual = some .requestTimeout) ∧
      ((p [.input aRequest, .respond .serveFile]).isIdle_ = false ∧
        ¬ (p [.input aRequest, .respond .serveFile]).HasRequest) ∧
      ((p [.input aRequest, .respond .send, .input (lit "G")]).isIdle_ = true ∧
        (p [.input aRequest, .respond .send, .input (lit "G")]).HasRequest) ∧
      (p [.input aRequest, .input aRequest, .respond .send]).isIdle_ = true ∧
        (p [.input aRequest, .input aRequest, .respond .send]).HasRequest := by
  refine ⟨⟨by decide, by decide, by decide⟩, ⟨by decide, by decide⟩, ⟨by decide, by decide⟩,
    by decide, by decide⟩

end Pistache.Http
