import Pistache.Http.Framing
import Pistache.Tcp.Delivery

/-!
# The connections of a server

`Handler` as the handler of a server's transports: `onConnection` puts a parser among the data of
the peer, and `onInput` finds it there.

* `call_sessions` — calls that are a session for each peer find the data they look for, and the
  parser of each peer sees the input of that peer alone.
* `requests_isolated` — over all runs of the listener and the workers.
-/

set_option autoImplicit false

namespace Pistache.Http

open Tcp (Callback Session)

variable {H : Type}

/-- The `ParserData` of each peer, and what `onInput` has done for it. -/
structure Connections (H : Type) where
  data_ : Tcp.Peer → Option (ParserBase H RequestLine) := fun _ => none
  events : Tcp.Peer → List (Event H) := fun _ => []

namespace Handler

variable (handler : Handler H) (maxRequestSize : Nat)

/-- `none` stands for the exceptions of `putData` and `getData`. -/
def call (c : Connections H) : Callback → Option (Connections H)
  | .onConnection peer =>
    match c.data_ peer with
    | some _ => none
    | none => some { c with
        data_ := Function.update c.data_ peer (some (RequestParser.new maxRequestSize)) }
  | .onInput peer buffer =>
    match c.data_ peer with
    | none => none
    | some parser =>
      let (events, parser) := handler.onInput parser buffer
      some {
        data_ := Function.update c.data_ peer (some parser)
        events := Function.update c.events peer (c.events peer ++ events) }
  | .onDisconnection _ => some c

/-- The data and the events of a peer are those of its session. -/
structure Serves (c : Connections H) (peer : Tcp.Peer) (session : Session) : Prop where
  data_ : c.data_ peer = if session.connected then
    some (handler.run (RequestParser.new maxRequestSize) session.inputs).2 else none
  events : c.events peer = (handler.run (RequestParser.new maxRequestSize) session.inputs).1

variable {handler maxRequestSize}

/-- One call that is in order for its peer. -/
theorem Serves.call {c : Connections H} {sessions : Tcp.Peer → Session}
    (h : ∀ peer, Serves handler maxRequestSize c peer (sessions peer)) (callback : Callback)
    (hnil : (sessions callback.peer).connected = false → (sessions callback.peer).inputs = [])
    {session : Session} (hcall : (sessions callback.peer).call callback = some session) :
    ∃ c', handler.call maxRequestSize c callback = some c' ∧ ∀ peer,
      Serves handler maxRequestSize c' peer (Function.update sessions callback.peer session peer) := by
  have hself := h callback.peer
  have hframe : ∀ {c' : Connections H},
      (∀ peer, peer ≠ callback.peer → c'.data_ peer = c.data_ peer ∧ c'.events peer = c.events peer) →
      Serves handler maxRequestSize c' callback.peer session → ∀ peer,
        Serves handler maxRequestSize c' peer
          (Function.update sessions callback.peer session peer) := by
    intro c' hother hown peer
    by_cases hpeer : peer = callback.peer
    · subst hpeer
      rw [Function.update_self]
      exact hown
    · rw [Function.update_of_ne hpeer]
      obtain ⟨hdata, hevents⟩ := hother peer hpeer
      exact ⟨hdata.trans (h peer).data_, hevents.trans (h peer).events⟩
  cases callback with
  | onConnection peer =>
    dsimp only [Callback.peer] at hnil hcall hself hframe ⊢
    obtain ⟨hno, rfl⟩ := Session.call_onConnection hcall
    have hdata : c.data_ peer = none := by
      rw [hself.data_, if_neg (by rw [hno]; exact Bool.false_ne_true)]
    refine ⟨{ c with
      data_ := Function.update c.data_ peer (some (RequestParser.new maxRequestSize)) },
      by simp only [Handler.call, hdata], hframe (fun peer' hne => ?_) ⟨?_, hself.events⟩⟩
    · exact ⟨Function.update_of_ne hne _ _, rfl⟩
    · rw [hnil hno]
      exact Function.update_self ..
  | onInput peer buffer =>
    dsimp only [Callback.peer] at hnil hcall hself hframe ⊢
    obtain ⟨hyes, -, rfl⟩ := Session.call_onInput hcall
    have hdata : c.data_ peer =
        some (handler.run (RequestParser.new maxRequestSize) (sessions peer).inputs).2 := by
      rw [hself.data_, if_pos hyes]
    let out := handler.onInput
      (handler.run (RequestParser.new maxRequestSize) (sessions peer).inputs).2 buffer
    refine ⟨{
      data_ := Function.update c.data_ peer (some out.2)
      events := Function.update c.events peer (c.events peer ++ out.1) },
      by simp only [Handler.call, hdata]; rfl, hframe (fun peer' hne => ?_) ⟨?_, ?_⟩⟩
    · exact ⟨Function.update_of_ne hne _ _, Function.update_of_ne hne _ _⟩
    · rw [if_pos hyes, run_append]
      exact Function.update_self ..
    · rw [run_append]
      refine (Function.update_self ..).trans ?_
      rw [hself.events]
      simp [Handler.run, out]
  | onDisconnection peer =>
    dsimp only [Callback.peer] at hnil hcall hself hframe ⊢
    cases Session.call_onDisconnection hcall
    exact ⟨c, rfl, hframe (fun _ _ => ⟨rfl, rfl⟩) ⟨hself.data_, hself.events⟩⟩

/-- Calls that are a session for each peer. -/
theorem call_run : ∀ (calls : List Callback) (c : Connections H) (sessions : Tcp.Peer → Session),
    (∀ peer, Serves handler maxRequestSize c peer (sessions peer)) →
    (∀ peer, (sessions peer).Valid) →
    (∀ peer, ∃ session,
      (calls.filter fun c => c.peer = peer).foldlM Session.call (sessions peer) = some session) →
    ∃ c', calls.foldlM (handler.call maxRequestSize) c = some c' ∧ ∀ peer session,
      (calls.filter fun c => c.peer = peer).foldlM Session.call (sessions peer) = some session →
        Serves handler maxRequestSize c' peer session
  | [], c, sessions, h, _, _ => ⟨c, rfl, fun peer session hs => by
      cases hs
      exact h peer⟩
  | callback :: calls, c, sessions, h, hvalid, hsome => by
    obtain ⟨last, hlast⟩ := hsome callback.peer
    simp only [List.filter_cons, decide_true, if_true, List.foldlM_cons] at hlast
    obtain ⟨session, hcall, hrest⟩ := Option.bind_eq_some_iff.mp hlast
    obtain ⟨c₁, hc₁, hserves⟩ := Serves.call h callback (hvalid callback.peer).connected hcall
    have hfold : ∀ peer, ((callback :: calls).filter fun c => c.peer = peer).foldlM Session.call
        (sessions peer) = (calls.filter fun c => c.peer = peer).foldlM Session.call
          (Function.update sessions callback.peer session peer) := by
      intro peer
      by_cases hpeer : callback.peer = peer
      · subst hpeer
        simp [hcall]
      · rw [Function.update_of_ne (Ne.symm hpeer)]
        simp [hpeer]
    have hvalid' : ∀ peer, (Function.update sessions callback.peer session peer).Valid := by
      intro peer
      by_cases hpeer : peer = callback.peer
      · subst hpeer
        rw [Function.update_self]
        exact (hvalid callback.peer).call hcall
      · rw [Function.update_of_ne hpeer]
        exact hvalid peer
    obtain ⟨c', hc', hall⟩ := call_run calls c₁ _ hserves hvalid'
      fun peer => by rw [← hfold]; exact hsome peer
    refine ⟨c', ?_, fun peer session hs => hall peer session ((hfold peer).symm.trans hs)⟩
    rw [List.foldlM_cons, hc₁]
    exact hc'

end Handler

section Runs

variable (handler : Handler H) (maxRequestSize handlers : Nat) {events : List Tcp.Server.Event}

theorem served_sessions
    (hapart : Machine.Always (Tcp.Server.step handlers) (Tcp.Server.Event.Apart handlers) {} events) :
    ∃ c, (Tcp.Server.run handlers {} events).calls.foldlM (handler.call maxRequestSize) {} = some c ∧
      ∀ peer session, Session.of (Tcp.Server.run handlers {} events).calls peer = some session →
        c.events peer = (handler.run (RequestParser.new maxRequestSize) session.inputs).1 := by
  have hfollows := (Tcp.Server.Faithful.run events hapart).follows
  obtain ⟨c, hc, hall⟩ := @Handler.call_run H handler maxRequestSize
    (Tcp.Server.run handlers {} events).calls {} (fun _ => {}) (fun _ => ⟨rfl, rfl⟩)
    (fun _ => ⟨fun _ => rfl, by simp⟩) fun peer => ⟨_, (hfollows.sessions peer).choose_spec.1⟩
  exact ⟨c, hc, fun peer session hof => (hall peer session hof).events⟩

/-- Whatever the listener and the workers do with the other connections: no call of the handler
ends in an exception of its own, and what it does for a connection is what a parser of its own does
with what has been read from it. -/
theorem requests_isolated
    (hapart : Machine.Always (Tcp.Server.step handlers) (Tcp.Server.Event.Apart handlers) {} events) :
    ∃ c, (Tcp.Server.run handlers {} events).calls.foldlM (handler.call maxRequestSize) {} = some c ∧
      ∀ peer, ∃ inputs : List Bytes,
        inputs.flatten = ((Tcp.Server.run handlers {} events).socket peer).taken ∧
        c.events peer = (handler.run (RequestParser.new maxRequestSize) inputs).1 := by
  obtain ⟨c, hc, hall⟩ := served_sessions handler maxRequestSize handlers hapart
  refine ⟨c, hc, fun peer => ?_⟩
  obtain ⟨session, hof, hfits⟩ := (Tcp.Server.Faithful.run events hapart).follows.sessions peer
  exact ⟨session.inputs, hfits.input, hall peer session hof⟩

end Runs

theorem requests_isolated_numberReused :
    ∃ c, (Tcp.Server.run 2 {} Tcp.Server.numberReused).calls.foldlM (Handler.quiet.call 4096) {} =
        some c ∧
      ∀ peer, ∃ inputs : List Bytes,
        inputs.flatten = ((Tcp.Server.run 2 {} Tcp.Server.numberReused).socket peer).taken ∧
        c.events peer = (Handler.quiet.run (RequestParser.new 4096) inputs).1 :=
  requests_isolated Handler.quiet 4096 2 (by decide)

end Pistache.Http
