import Pistache.Experimental.Client
import Pistache.Lib.Stacks

/-!
# What a step of the client does

The steps of a thread by what they do to the state, for the invariants of the client.

* `Plain`, `Move` — the steps that change the stack of the thread alone, and all steps.
* `frame_move`, `next_cases` — there are no others.
* `run_inv` — an invariant of the moves holds behind every run, `Always.run_inv` the same under a
  condition on the events.
-/

set_option autoImplicit false

namespace Pistache.Experimental

variable {T : Type} [DecidableEq T]

/-- The steps that put the frames `gs` in the place of the one on top, and do nothing else. -/
inductive Plain (cfg : Config T) (s : State T) (t : T) (input : Input) :
    Frame → List Frame → Prop where
  | user_return : Plain cfg s t input .user []
  | user_throw : input = .throw_ → Plain cfg s t input .user [.throwing "user"]
  | pick_next {r : Request} {i : Nat} :
    i < cfg.maxConnectionsPerHost → (s.conn ⟨r.host, i⟩).used →
    Plain cfg s t input (.pickConnection r i) [.pickConnection r (i + 1)]
  | pick_none {r : Request} {i : Nat} : cfg.maxConnectionsPerHost ≤ i →
    Plain cfg s t input (.pickConnection r i) [.enqueue r]
  | connect_fails {r : Request} {c : ConnId} : input = .connect false →
    Plain cfg s t input (.connect r c) [.throwing "Failed to connect"]
  | attach_resolved {c : ConnId} : (s.conn c).attempt = .resolved →
    Plain cfg s t input (.attach c) [.connected c]
  | attach_rejected {c : ConnId} : (s.conn c).attempt = .rejected →
    Plain cfg s t input (.attach c) []
  | checkFd_closed {c : ConnId} : (s.conn c).socket = none →
    Plain cfg s t input (.checkFd c) [.throwing "Failed to connect"]
  | checkFd_open {c : ConnId} : Plain cfg s t input (.checkFd c) []
  | requests_done {c : ConnId} : (s.conn c).requestsQueue = [] →
    Plain cfg s t input (.processRequests c) []
  | performImpl {c : ConnId} {r : Request} : r.timeout ≤ 0 →
    Plain cfg s t input (.performImpl c r) [.setEntry c r none]
  | send_here {c : ConnId} {r : Request} {timer : Option Nat} : (s.conn c).transport = some t →
    Plain cfg s t input (.asyncSendRequest c r timer) [.asyncSendRequestImpl c r timer]
  | send_noFd {c : ConnId} {r : Request} {timer : Option Nat} : (s.conn c).socket = none →
    Plain cfg s t input (.asyncSendRequestImpl c r timer) [.handleError c "Could not send request"]
  | send_loop {c : ConnId} {r : Request} {timer : Option Nat} : (s.conn c).socket ≠ none →
    Plain cfg s t input (.asyncSendRequestImpl c r timer) [.send c r timer 0]
  | send_throws {c : ConnId} {r : Request} {timer : Option Nat} {total : Nat} {what : String} :
    input = .send .EAGAIN → Plain cfg s t input (.send c r timer total) [.throwing what]
  | send_error {c : ConnId} {r : Request} {timer : Option Nat} {total : Nat} {error : String} :
    input = .send .ECONNREFUSED ∨ input = .send .error →
    Plain cfg s t input (.send c r timer total) [.handleError c error]
  | error_none {c : ConnId} {error : String} : (s.conn c).requestEntry = none →
    Plain cfg s t input (.handleError c error) []
  | timeout_none {c : ConnId} : (s.conn c).requestEntry = none →
    Plain cfg s t input (.handleTimeout c) []
  | tooLong {c : ConnId} : Plain cfg s t input (.handleResponsePacket c)
      [.handleError c "Client: Too long packet", .tryBlock c]
  | parse_again {c : ConnId} : input = .parse .Again →
    Plain cfg s t input (.handleResponsePacket c) []
  | parse_raised {c : ConnId} {what : String} :
    Plain cfg s t input (.handleResponsePacket c) [.handleError c what]
  | parse_none {c : ConnId} : (s.conn c).requestEntry = none →
    Plain cfg s t input (.handleResponsePacket c) []
  | queues_next {host : Bytes} {hosts : List Bytes} {i : Nat} :
    i < cfg.maxConnectionsPerHost → (s.conn ⟨host, i⟩).used →
    Plain cfg s t input (.pick (host :: hosts) i) [.pick (host :: hosts) (i + 1)]
  | queues_host {host : Bytes} {hosts : List Bytes} {i : Nat} : cfg.maxConnectionsPerHost ≤ i →
    Plain cfg s t input (.pick (host :: hosts) i) [.pick hosts 0]
  | connections_done : (s.transport t).connectionsQueue = [] →
    Plain cfg s t input .handleConnectionQueue []
  | sends_done : (s.transport t).requestsQueue = [] → Plain cfg s t input .handleRequestsQueue []
  | ready_connections {events : List Ready} : Plain cfg s t input
      (.onReady (.connectionsQueue :: events)) [.handleConnectionQueue, .onReady events]
  | ready_requests {events : List Ready} : Plain cfg s t input
      (.onReady (.requestsQueue :: events)) [.handleRequestsQueue, .onReady events]
  | ready_readable {c : ConnId} {events : List Ready} : (s.conn c).listed →
    Plain cfg s t input (.onReady (.socket c .readable :: events))
      [.handleIncoming c false, .onReady events]
  | ready_unlisted {c : ConnId} {events : List Ready} : (s.conn c).listed = false →
    Plain cfg s t input (.onReady (.socket c .readable :: events)) [.onReady events]
  | ready_untimed {c : ConnId} {k : Nat} {events : List Ready} :
    (c, k) ∉ (s.transport t).timeouts →
    Plain cfg s t input (.onReady (.timer c k :: events)) [.onReady events]
  | ready_throws {c : ConnId} {readiness : Readiness} {events : List Ready} {what : String} :
    readiness ≠ .readable → (s.conn c).listed = false ∨ (s.conn c).attempt ≠ .pending →
    Plain cfg s t input (.onReady (.socket c readiness :: events))
      [.throwing what, .onReady events]
  | ready_again {c : ConnId} {events : List Ready} {what : String} : (s.conn c).attempt ≠ .pending →
    Plain cfg s t input (.onReady (.socket c .writable :: events))
      [.throwing what, .modifyFd c, .onReady events]
  | incoming_gone {c : ConnId} {totalBytes : Bool} : (s.conn c).socket = none →
    Plain cfg s t input (.handleIncoming c totalBytes) []
  | incoming_none {c : ConnId} : Plain cfg s t input (.handleIncoming c false) []
  | incoming_packet {c : ConnId} {totalBytes : Bool} :
    Plain cfg s t input (.handleIncoming c totalBytes) [.handleResponsePacket c]
  | incoming_error {c : ConnId} {totalBytes : Bool} {what : String} :
    Plain cfg s t input (.handleIncoming c totalBytes) [.handleError c what]
  | incoming_closed {c : ConnId} : input = .recv .closed → (s.conn c).socket ≠ none →
    Plain cfg s t input (.handleIncoming c false)
      [.handleError c "Remote closed connection", .remoteClosed c]
  | incoming_last {c : ConnId} : input = .recv .closed → (s.conn c).socket ≠ none →
    Plain cfg s t input (.handleIncoming c true) [.handleResponsePacket c, .remoteClosed c]
  | incoming_bytes {c : ConnId} {totalBytes : Bool} :
    Plain cfg s t input (.handleIncoming c totalBytes) [.handleIncoming c true]
  | tryBlock {c : ConnId} : Plain cfg s t input (.tryBlock c) []

/-- The steps of a thread that has the frame on top of `fs`. -/
inductive Move (cfg : Config T) (s : State T) (t : T) (fs : List Frame) (input : Input) :
    Frame → State T → Prop where
  /-- it waits, for a lock or for another input -/
  | wait {f : Frame} : Move cfg s t fs input f s
  | abort {f : Frame} : Move cfg s t fs input f s.abort
  | plain {f : Frame} {gs : List Frame} : Plain cfg s t input f gs →
    Move cfg s t fs input f (s.goto t (gs ++ fs))
  | call {resource : Bytes} {timeout : Int} {size : Nat} :
    input = .doRequest resource timeout size →
    Move cfg s t fs input .user (s.call t resource timeout size (.user :: fs))
  | doRequest {r : Request} : Move cfg s t fs input (.doRequest r) (s.doRequest t r fs)
  | pick_take {r : Request} {i : Nat} :
    i < cfg.maxConnectionsPerHost → (s.conn ⟨r.host, i⟩).used = false →
    Move cfg s t fs input (.pickConnection r i)
      ((s.setConn ⟨r.host, i⟩ { s.conn ⟨r.host, i⟩ with used := true }).goto t
        (.found r ⟨r.host, i⟩ :: fs))
  | enqueue {r : Request} : s.locked .queuesLock = none →
    Move cfg s t fs input (.enqueue r)
      (({ s with hosts := s.hosts.insert r.host }.setQueue r.host (s.queue r.host ++ [r])).goto t
        fs)
  | full {r : Request} : s.locked .queuesLock = none →
    Move cfg s t fs input (.enqueue r)
      (({ s with hosts := s.hosts.insert r.host }.settle r.id (.rejected "Queue is full")).goto t
        fs)
  | found_connected {r : Request} {c : ConnId} : (s.conn c).connectionState = .Connected →
    Move cfg s t fs input (.found r c)
      ((s.associateTransport cfg c).goto t (.performImpl c r :: fs))
  | found_closed {r : Request} {c : ConnId} : (s.conn c).connectionState ≠ .Connected →
    Move cfg s t fs input (.found r c)
      (((s.associateTransport cfg c).setConn c
        { (s.associateTransport cfg c).conn c with
          requestsQueue := (s.conn c).requestsQueue ++ [r] }).goto t (.connect r c :: fs))
  | connect {r : Request} {c : ConnId} {w : T} : (s.conn c).transport = some w →
    Move cfg s t fs input (.connect r c)
      (((s.setConn c
          { s.conn c with
            connectionState := .Connecting
            socket := some r.https
            attempt := .pending
            attached := false }).setTransport w
        { s.transport w with connectionsQueue := (s.transport w).connectionsQueue ++ [c] }).goto t
        (.attach c :: if r.https then .checkFd c :: fs else fs))
  | attach {c : ConnId} : (s.conn c).attempt = .pending →
    Move cfg s t fs input (.attach c) ((s.setConn c { s.conn c with attached := true }).goto t fs)
  | connected {c : ConnId} : Move cfg s t fs input (.connected c) (s.connected t c fs)
  | requests_next {c : ConnId} {r : Request} {queue : List Request} :
    (s.conn c).requestsQueue = r :: queue →
    Move cfg s t fs input (.processRequests c)
      ((s.setConn c { s.conn c with requestsQueue := queue }).goto t
        (.performImpl c r :: .processRequests c :: fs))
  | arm {c : ConnId} {r : Request} {k : Nat} : 0 < r.timeout →
    (s.conn c).pickTimer = some k →
    Move cfg s t fs input (.performImpl c r)
      ({ s.setTimer c k
          { (s.conn c).timers k with
            used := true, expiry := some (s.now + nanoseconds (armMs r.timeout)) } with
          armed := Function.update s.armed r.id ((s.now, r.timeout) :: s.armed r.id) }.goto t
        (.setEntry c r (some k) :: fs))
  | setEntry {c : ConnId} {r : Request} {timer : Option Nat} :
    Move cfg s t fs input (.setEntry c r timer) (s.setEntry t c r timer fs)
  | post {c : ConnId} {r : Request} {timer : Option Nat} {w : T} :
    (s.conn c).transport = some w → w ≠ t →
    Move cfg s t fs input (.asyncSendRequest c r timer)
      ((s.setTransport w
        { s.transport w with
          requestsQueue := (s.transport w).requestsQueue ++ [⟨c, r, timer⟩] }).goto t fs)
  | send_again {c : ConnId} {r : Request} {timer : Option Nat} {total total' : Nat} :
    Move cfg s t fs input (.send c r timer total)
      ({ s with written := (r, s.isSsl c) :: s.written }.goto t (.send c r timer total' :: fs))
  | send_done {c : ConnId} {r : Request} {total : Nat} :
    Move cfg s t fs input (.send c r none total)
      ({ s with written := (r, s.isSsl c) :: s.written }.goto t fs)
  | send_timed {c : ConnId} {r : Request} {k total total' : Nat} {result : SendResult} :
    input = .send result → iteration r.size total result = .resolve total' →
    Move cfg s t fs input (.send c r (some k) total)
      ({ s with written := (r, s.isSsl c) :: s.written }.goto t (.insertTimeout c k :: fs))
  | insertTimeout {c : ConnId} {k : Nat} : s.locked (.timeoutsLock t) = none →
    Move cfg s t fs input (.insertTimeout c k)
      (((s.setTransport t
          { s.transport t with timeouts := (s.transport t).timeouts.insert (c, k) }).setTimer c k
        { (s.conn c).timers k with registered := true }).goto t fs)
  | reject {c : ConnId} {error : String} {e : RequestEntry} :
    (s.conn c).requestEntry = some e → s.outcomes e.request.id = [] →
    Move cfg s t fs input (.handleError c error)
      (((s.releaseTimer c e.timer).settle e.request.id (.rejected error)).goto t
        (s.continuation e.request ++ .rejected c :: fs))
  | timeOut {c : ConnId} {e : RequestEntry} :
    (s.conn c).requestEntry = some e → e.timer ≠ none → s.outcomes e.request.id = [] →
    Move cfg s t fs input (.handleTimeout c)
      (((s.releaseTimer c e.timer).settle e.request.id (.timedOut s.now)).goto t
        (s.continuation e.request ++ .rejected c :: fs))
  | reject_throws {f : Frame} {c : ConnId} {e : RequestEntry} :
    (∃ error, f = .handleError c error) ∨ f = .handleTimeout c →
    (s.conn c).requestEntry = some e → s.outcomes e.request.id ≠ [] →
    Move cfg s t fs input f
      ((s.releaseTimer c e.timer).goto t
        (.throwing "Attempt to reject a fulfilled promise" :: fs))
  | resolve {c : ConnId} {e : RequestEntry} : input = .parse .Done →
    (s.conn c).requestEntry = some e → s.outcomes e.request.id = [] →
    Move cfg s t fs input (.handleResponsePacket c)
      (((s.releaseTimer c e.timer).settle e.request.id .resolved).goto t
        (s.continuation e.request ++ .resolved c :: fs))
  | resolve_throws {c : ConnId} {e : RequestEntry} : input = .parse .Done →
    (s.conn c).requestEntry = some e → s.outcomes e.request.id ≠ [] →
    Move cfg s t fs input (.handleResponsePacket c)
      ((s.releaseTimer c e.timer).goto t
        (.handleError c "Attempt to resolve a fulfilled promise" :: fs))
  | rejected {c : ConnId} : Move cfg s t fs input (.rejected c) (s.reset t c fs)
  | resolved {c : ConnId} :
    Move cfg s t fs input (.resolved c) (s.reset t c (.tryBlock c :: fs))
  | onDone {c : ConnId} : Move cfg s t fs input (.onDone c) (s.onDone t c fs)
  | lock {hosts : List Bytes} : s.locked .queuesLock = none → hosts.Perm s.hosts →
    Move cfg s t fs input .processRequestQueue
      ((s.setLock .queuesLock (some t)).goto t (.pick hosts 0 :: fs))
  | unlock {i : Nat} :
    Move cfg s t fs input (.pick [] i) ((s.setLock .queuesLock none).goto t fs)
  | queues_take {host : Bytes} {hosts : List Bytes} {i : Nat} :
    i < cfg.maxConnectionsPerHost → (s.conn ⟨host, i⟩).used = false →
    Move cfg s t fs input (.pick (host :: hosts) i)
      ((s.setConn ⟨host, i⟩ { s.conn ⟨host, i⟩ with used := true }).goto t
        (.dequeue ⟨host, i⟩ (host :: hosts) :: fs))
  | dequeue_none {c : ConnId} {hosts : List Bytes} : s.queue c.host = [] →
    Move cfg s t fs input (.dequeue c hosts)
      ((s.setConn c { s.conn c with used := false }).goto t (.pick hosts.tail 0 :: fs))
  | dequeue {c : ConnId} {hosts : List Bytes} {r : Request} {queue : List Request} :
    s.queue c.host = r :: queue →
    Move cfg s t fs input (.dequeue c hosts)
      ((s.setQueue c.host queue).goto t (.performImpl c r :: .pick hosts 0 :: fs))
  | ready_done :
    Move cfg s t fs input (.onReady []) ((s.setLock (.handlingMutex t) none).goto t fs)
  | ready_timer {c : ConnId} {k : Nat} {events : List Ready} :
    (c, k) ∈ (s.transport t).timeouts → s.locked (.timeoutsLock t) = none →
    Move cfg s t fs input (.onReady (.timer c k :: events))
      ((s.setLock (.timeoutsLock t) (some t)).goto t
        (.handleTimeout c :: .eraseTimeout c k :: .onReady events :: fs))
  | ready_writable {c : ConnId} {events : List Ready} :
    (s.conn c).listed → (s.conn c).attempt = .pending → (s.conn c).socket ≠ none →
    Move cfg s t fs input (.onReady (.socket c .writable :: events))
      ((s.setConn c { s.conn c with attempt := .resolved }).goto t
        ((if (s.conn c).attached then [.connected c] else []) ++
          .modifyFd c :: .onReady events :: fs))
  | ready_refused {c : ConnId} {readiness : Readiness} {events : List Ready} :
    (s.conn c).listed → (s.conn c).attempt = .pending →
    readiness = .hangup ∨ (readiness = .writable ∧ (s.conn c).socket = none) →
    Move cfg s t fs input (.onReady (.socket c readiness :: events))
      ((s.setConn c { s.conn c with attempt := .rejected }).goto t (.onReady events :: fs))
  | connection_plain {c : ConnId} {queue : List ConnId} :
    (s.transport t).connectionsQueue = c :: queue → (s.conn c).socket = some false →
    input = .connect true →
    Move cfg s t fs input .handleConnectionQueue
      (((s.setTransport t { s.transport t with connectionsQueue := queue }).setConn c
        { s.conn c with watch := .write, listed := true }).goto t (.handleConnectionQueue :: fs))
  | connection_refused {c : ConnId} {queue : List ConnId} :
    (s.transport t).connectionsQueue = c :: queue → (s.conn c).attempt = .pending →
    (s.conn c).socket = none ∨ ((s.conn c).socket = some false ∧ input = .connect false) →
    Move cfg s t fs input .handleConnectionQueue
      (((s.setTransport t { s.transport t with connectionsQueue := queue }).setConn c
        { s.conn c with attempt := .rejected }).goto t (.handleConnectionQueue :: fs))
  | connection_tls {c : ConnId} {queue : List ConnId} :
    (s.transport t).connectionsQueue = c :: queue → (s.conn c).socket = some true →
    (s.conn c).attempt = .pending →
    Move cfg s t fs input .handleConnectionQueue
      (((s.setTransport t { s.transport t with connectionsQueue := queue }).setConn c
        { s.conn c with watch := .write, attempt := .resolved }).goto t
        ((if (s.conn c).attached then [.connected c] else []) ++
          .insertConnection c :: .handleConnectionQueue :: fs))
  | connection_throws {c : ConnId} {queue : List ConnId} {watch : Watch} {gs : List Frame}
      {what : String} :
    (s.transport t).connectionsQueue = c :: queue → (s.conn c).attempt ≠ .pending →
    gs = [.handleConnectionQueue] ∨ gs = [.insertConnection c, .handleConnectionQueue] →
    Move cfg s t fs input .handleConnectionQueue
      (((s.setTransport t { s.transport t with connectionsQueue := queue }).setConn c
        { s.conn c with watch }).goto t (.throwing what :: gs ++ fs))
  | insertConnection {c : ConnId} :
    Move cfg s t fs input (.insertConnection c) (s.insertConnection t c fs)
  | sends_next {e : Sent} {queue : List Sent} : (s.transport t).requestsQueue = e :: queue →
    Move cfg s t fs input .handleRequestsQueue
      ((s.setTransport t { s.transport t with requestsQueue := queue }).goto t
        (.asyncSendRequestImpl e.conn e.request e.timer :: .handleRequestsQueue :: fs))
  | modifyFd {c : ConnId} : Move cfg s t fs input (.modifyFd c) (s.modifyFd t c fs)
  | eraseTimeout {c : ConnId} {k : Nat} :
    Move cfg s t fs input (.eraseTimeout c k) (s.eraseTimeout t c k fs)
  | remoteClosed {c : ConnId} : Move cfg s t fs input (.remoteClosed c) (s.remoteClosed t c fs)
  | thrown {what : String} : fs = [] →
    Move cfg s t fs input (.throwing what) (s.goto t [])
  | caught {what : String} {gs : List Frame} : fs = .user :: gs →
    Move cfg s t fs input (.throwing what) (s.goto t (.user :: gs))
  | catch_ {what : String} {f : Frame} {c : ConnId} {gs : List Frame} : fs = f :: gs →
    f = .resolved c ∨ f = .tryBlock c →
    Move cfg s t fs input (.throwing what) (s.goto t (.handleError c what :: gs))
  | unwind {what : String} {f : Frame} {gs : List Frame} : fs = f :: gs →
    (∀ c, f ≠ .resolved c) → (∀ c, f ≠ .tryBlock c) → input ≠ .catch_ ∨ f ≠ .user →
    Move cfg s t fs input (.throwing what)
      ({ s with locked := unlock s.locked (f.lock t) }.goto t (.throwing what :: gs))

/-! ## There are no others -/

section

variable (cfg : Config T) (s : State T) (t : T) (fs : List Frame) (input : Input)

theorem pickConnection_move (r : Request) (i : Nat) :
    Move cfg s t fs input (.pickConnection r i) (s.pickConnection cfg t r i fs) := by
  unfold State.pickConnection
  dsimp only
  split
  · exact .wait
  · split
    · rename_i hi
      split
      · rename_i hused
        exact .plain (.pick_next hi hused)
      · rename_i hused
        exact .pick_take hi (Bool.eq_false_iff.mpr hused)
    · rename_i hi
      exact .plain (.pick_none (Nat.le_of_not_lt hi))

theorem enqueue_move (r : Request) : Move cfg s t fs input (.enqueue r) (s.enqueue t r fs) := by
  unfold State.enqueue
  split
  · exact .wait
  · rename_i hlock
    dsimp only
    split
    · exact .enqueue (not_not.mp hlock)
    · exact .full (not_not.mp hlock)

theorem found_move (r : Request) (c : ConnId) :
    Move cfg s t fs input (.found r c) (s.found cfg t r c fs) := by
  have hstate : ((s.associateTransport cfg c).conn c).connectionState =
      (s.conn c).connectionState := by simp [State.associateTransport, State.setConn]
  have hqueue : ((s.associateTransport cfg c).conn c).requestsQueue =
      (s.conn c).requestsQueue := by simp [State.associateTransport, State.setConn]
  unfold State.found
  dsimp only
  by_cases h : (s.conn c).connectionState = .Connected
  · rw [if_pos (hstate.trans h)]
    exact .found_connected h
  · rw [if_neg (hstate ▸ h), hqueue]
    exact .found_closed h

theorem connect_move (r : Request) (c : ConnId) (ok : Bool) (hinput : input = .connect ok) :
    Move cfg s t fs input (.connect r c) (s.connect t r c ok fs) := by
  unfold State.connect
  split
  · split
    · exact .abort
    · rename_i w hw
      exact .connect hw
  · rename_i hok
    exact .plain (.connect_fails (by rw [hinput, Bool.eq_false_iff.mpr hok]))

theorem attach_move (c : ConnId) : Move cfg s t fs input (.attach c) (s.attach t c fs) := by
  unfold State.attach
  split
  · rename_i h
    exact .attach h
  · rename_i h
    exact .plain (.attach_resolved h)
  · rename_i h
    exact .plain (.attach_rejected h)

theorem checkFd_move (c : ConnId) : Move cfg s t fs input (.checkFd c) (s.checkFd t c fs) := by
  unfold State.checkFd
  split
  · rename_i h
    exact .plain (.checkFd_closed h)
  · exact .plain .checkFd_open

theorem processRequests_move (c : ConnId) :
    Move cfg s t fs input (.processRequests c) (s.processRequests t c fs) := by
  unfold State.processRequests
  split
  · rename_i h
    exact .plain (.requests_done h)
  · rename_i h
    exact .requests_next h

theorem performImpl_move (c : ConnId) (r : Request) :
    Move cfg s t fs input (.performImpl c r) (s.performImpl t c r fs) := by
  unfold State.performImpl
  split
  · rename_i h
    split
    · exact .abort
    · rename_i k hk
      exact .arm h hk
  · rename_i h
    exact .plain (.performImpl (not_lt.mp h))

theorem handleError_move (c : ConnId) (error : String) :
    Move cfg s t fs input (.handleError c error) (s.handleError t c error fs) := by
  unfold State.handleError
  split
  · rename_i h
    exact .plain (.error_none h)
  · rename_i e h
    unfold State.reject
    dsimp only
    split
    · rename_i hout
      exact .reject h hout
    · rename_i hout
      exact .reject_throws (.inl ⟨error, rfl⟩) h hout

theorem handleTimeout_move (c : ConnId) :
    Move cfg s t fs input (.handleTimeout c) (s.handleTimeout t c fs) := by
  unfold State.handleTimeout
  split
  · rename_i h
    exact .plain (.timeout_none h)
  · rename_i e h
    split
    · exact .abort
    · rename_i htimer
      unfold State.reject
      dsimp only
      split
      · rename_i hout
        exact .timeOut h htimer hout
      · rename_i hout
        exact .reject_throws (.inr rfl) h hout

theorem handleResponsePacket_move (c : ConnId) (parsed : Parsed) (hinput : input = .parse parsed) :
    Move cfg s t fs input (.handleResponsePacket c) (s.handleResponsePacket t c parsed fs) := by
  unfold State.handleResponsePacket
  split
  · exact .plain .tooLong
  · exact .plain (.parse_again hinput)
  · exact .plain .parse_raised
  · split
    · rename_i h
      exact .plain (.parse_none h)
    · rename_i e h
      dsimp only
      split
      · rename_i hout
        exact .resolve hinput h hout
      · rename_i hout
        exact .resolve_throws hinput h hout

theorem processRequestQueue_move (hosts : List Bytes) :
    Move cfg s t fs input .processRequestQueue (s.processRequestQueue t hosts fs) := by
  unfold State.processRequestQueue
  split
  · rename_i h
    exact .lock h.1 h.2
  · exact .wait

theorem pick_move (hosts : List Bytes) (i : Nat) :
    Move cfg s t fs input (.pick hosts i) (s.pick cfg t hosts i fs) := by
  unfold State.pick
  split
  · exact .unlock
  · dsimp only
    split
    · exact .wait
    · split
      · rename_i hi
        split
        · rename_i hused
          exact .plain (.queues_next hi hused)
        · rename_i hused
          exact .queues_take hi (Bool.eq_false_iff.mpr hused)
      · rename_i hi
        exact .plain (.queues_host (Nat.le_of_not_lt hi))

theorem dequeue_move (c : ConnId) (hosts : List Bytes) :
    Move cfg s t fs input (.dequeue c hosts) (s.dequeue t c hosts fs) := by
  unfold State.dequeue
  split
  · rename_i h
    exact .dequeue_none h
  · rename_i h
    exact .dequeue h

theorem asyncSendRequest_move (c : ConnId) (r : Request) (timer : Option Nat) :
    Move cfg s t fs input (.asyncSendRequest c r timer) (s.asyncSendRequest t c r timer fs) := by
  unfold State.asyncSendRequest
  split
  · exact .abort
  · rename_i w hw
    split
    · rename_i hwt
      exact .plain (.send_here (hwt ▸ hw))
    · rename_i hwt
      exact .post hw hwt

theorem asyncSendRequestImpl_move (c : ConnId) (r : Request) (timer : Option Nat) :
    Move cfg s t fs input (.asyncSendRequestImpl c r timer)
      (s.asyncSendRequestImpl t c r timer fs) := by
  unfold State.asyncSendRequestImpl
  split
  · rename_i h
    exact .plain (.send_noFd h)
  · rename_i h
    exact .plain (.send_loop h)

theorem send_move (c : ConnId) (r : Request) (timer : Option Nat) (total : Nat)
    (result : SendResult) (hinput : input = .send result) :
    Move cfg s t fs input (.send c r timer total) (s.send t c r timer total result fs) := by
  unfold State.send
  split
  · exact .send_again
  · rename_i h
    cases timer with
    | none => exact .send_done
    | some k => exact .send_timed hinput h
  · rename_i h
    cases result with
    | EAGAIN => exact .plain (.send_throws hinput)
    | bytes n =>
      simp only [iteration] at h
      split at h <;> cases h
    | ECONNREFUSED => cases h
    | error => cases h
  · rename_i h
    cases result with
    | ECONNREFUSED => exact .plain (.send_error (.inl hinput))
    | error => exact .plain (.send_error (.inr hinput))
    | bytes n =>
      simp only [iteration] at h
      split at h <;> cases h
    | EAGAIN => cases h

theorem insertTimeout_move (c : ConnId) (k : Nat) :
    Move cfg s t fs input (.insertTimeout c k) (s.insertTimeout t c k fs) := by
  unfold State.insertTimeout
  split
  · exact .wait
  · rename_i h
    exact .insertTimeout (not_not.mp h)

theorem handleConnectionQueue_move (ok : Bool) (hinput : input = .connect ok) :
    Move cfg s t fs input .handleConnectionQueue (s.handleConnectionQueue t ok fs) := by
  have hreject : ∀ {c : ConnId} {queue : List ConnId},
      (s.transport t).connectionsQueue = c :: queue →
      (s.conn c).socket = none ∨ ((s.conn c).socket = some false ∧ input = .connect false) →
      Move cfg s t fs input .handleConnectionQueue
        ((s.setTransport t { s.transport t with connectionsQueue := queue }).rejectAttempt t c
          (.handleConnectionQueue :: fs)) := by
    intro c queue hqueue hsocket
    unfold State.rejectAttempt
    split
    · rename_i h
      exact .connection_refused hqueue h hsocket
    · rename_i h
      have hthrows : Move cfg s t fs input .handleConnectionQueue
          (((s.setTransport t { s.transport t with connectionsQueue := queue }).setConn c
            { s.conn c with watch := (s.conn c).watch }).goto t
            (.throwing "Attempt to reject a fulfilled promise" :: [.handleConnectionQueue] ++ fs)) :=
        .connection_throws hqueue h (.inl rfl)
      simpa [State.setConn, State.goto, State.setTransport] using hthrows
  unfold State.handleConnectionQueue
  split
  · rename_i h
    exact .plain (.connections_done h)
  · rename_i c queue hqueue
    dsimp only
    split
    · rename_i h
      exact hreject hqueue (.inl h)
    · rename_i h
      unfold State.resolveAttempt
      split
      · rename_i hattempt
        have hpending : (s.conn c).attempt = .pending := by
          simpa [State.setConn, State.setTransport] using hattempt
        have := @Move.connection_tls _ _ cfg s t fs input c queue hqueue h hpending
        simp only [State.setConn, State.setTransport, State.goto, Function.update_self,
          Function.update_idem] at this ⊢
        split at this <;> rename_i hatt
        · rw [if_pos (by simpa using hatt)]
          exact this
        · rw [if_neg (by simpa using hatt)]
          exact this
      · rename_i hattempt
        have hpending : (s.conn c).attempt ≠ .pending := by
          simpa [State.setConn, State.setTransport] using hattempt
        exact .connection_throws hqueue hpending (.inr rfl)
    · rename_i h
      split
      · rename_i hok
        exact .connection_plain hqueue h (by rw [hinput, hok])
      · rename_i hok
        exact hreject hqueue (.inr ⟨h, by rw [hinput, Bool.eq_false_iff.mpr hok]⟩)

theorem handleRequestsQueue_move :
    Move cfg s t fs input .handleRequestsQueue (s.handleRequestsQueue t fs) := by
  unfold State.handleRequestsQueue
  split
  · rename_i h
    exact .plain (.sends_done h)
  · rename_i h
    exact .sends_next h

theorem handleIncoming_move (c : ConnId) (totalBytes : Bool) (result : RecvResult)
    (hinput : input = .recv result) :
    Move cfg s t fs input (.handleIncoming c totalBytes)
      (s.handleIncoming t c totalBytes result fs) := by
  unfold State.handleIncoming
  split
  · rename_i h
    exact .plain (.incoming_gone h)
  · rename_i h
    split
    · cases totalBytes with
      | true => exact .plain .incoming_packet
      | false => exact .plain .incoming_none
    · exact .plain .incoming_error
    · cases totalBytes with
      | true => exact .plain (.incoming_last hinput h)
      | false => exact .plain (.incoming_closed hinput h)
    · exact .plain .incoming_bytes
    · exact .plain .incoming_packet

theorem rejectAttempt_move (c : ConnId) (readiness : Readiness) (events : List Ready)
    (hready : readiness = .hangup ∨ (readiness = .writable ∧ (s.conn c).socket = none))
    (hlisted : (s.conn c).listed = true) :
    Move cfg s t fs input (.onReady (.socket c readiness :: events))
      (s.rejectAttempt t c (.onReady events :: fs)) := by
  have hne : readiness ≠ .readable := by
    rcases hready with rfl | ⟨rfl, -⟩ <;> simp
  unfold State.rejectAttempt
  split
  · rename_i h
    exact .ready_refused hlisted h hready
  · rename_i h
    exact .plain (.ready_throws hne (.inr h))

theorem onReady_move (events : List Ready) :
    Move cfg s t fs input (.onReady events) (s.onReady t events fs) := by
  unfold State.onReady
  split
  · exact .ready_done
  · exact .plain .ready_connections
  · exact .plain .ready_requests
  · unfold State.handleReadableEntry
    split
    · rename_i h
      exact .plain (.ready_readable h.2)
    · rename_i h
      split
      · exact .wait
      · exact .plain (.ready_unlisted (Bool.eq_false_iff.mpr fun hl => h ⟨rfl, hl⟩))
  · rename_i c rest
    unfold State.handleWritableEntry
    split
    · rename_i hlisted
      split
      · rename_i hsocket
        exact rejectAttempt_move cfg s t fs input _ _ _ (.inr ⟨rfl, hsocket⟩) hlisted
      · rename_i hsocket
        unfold State.resolveAttempt
        split
        · rename_i h
          have := @Move.ready_writable _ _ cfg s t fs input c rest hlisted h hsocket
          split at this <;> rename_i hatt
          · rw [if_pos hatt]
            exact this
          · rw [if_neg hatt]
            exact this
        · rename_i h
          exact .plain (.ready_again h)
    · rename_i hlisted
      exact .plain (.ready_throws (by simp) (.inl (Bool.eq_false_iff.mpr hlisted)))
  · unfold State.handleHangupEntry
    split
    · rename_i hlisted
      exact rejectAttempt_move cfg s t fs input _ _ _ (.inl rfl) hlisted
    · rename_i hlisted
      exact .plain (.ready_throws (by simp) (.inl (Bool.eq_false_iff.mpr hlisted)))
  · unfold State.handleReadableEntry
    split
    · rename_i h
      cases h.1
    · split
      · exact .wait
      · rename_i hlock
        dsimp only
        split
        · rename_i hmem
          exact .ready_timer hmem (not_not.mp hlock)
        · rename_i hmem
          exact .plain (.ready_untimed hmem)

/-- **A step** of the frame on top. -/
theorem frame_move (f : Frame) : Move cfg s t fs input f (s.frame cfg t fs input f) := by
  cases f with
  | user =>
    simp only [State.frame, State.user]
    split
    · exact .call rfl
    · exact .plain .user_return
    · exact .plain (.user_throw rfl)
    · exact .wait
  | doRequest r => exact .doRequest
  | pickConnection r i => exact pickConnection_move cfg s t fs input r i
  | enqueue r => exact enqueue_move cfg s t fs input r
  | found r c => exact found_move cfg s t fs input r c
  | connect r c =>
    simp only [State.frame]
    split
    · exact connect_move cfg s t fs _ r c _ rfl
    · exact .wait
  | attach c => exact attach_move cfg s t fs input c
  | checkFd c => exact checkFd_move cfg s t fs input c
  | connected c => exact .connected
  | processRequests c => exact processRequests_move cfg s t fs input c
  | performImpl c r => exact performImpl_move cfg s t fs input c r
  | setEntry c r timer => exact .setEntry
  | asyncSendRequest c r timer => exact asyncSendRequest_move cfg s t fs input c r timer
  | asyncSendRequestImpl c r timer => exact asyncSendRequestImpl_move cfg s t fs input c r timer
  | send c r timer total =>
    simp only [State.frame]
    split
    · exact send_move cfg s t fs _ c r timer total _ rfl
    · exact .wait
  | insertTimeout c k => exact insertTimeout_move cfg s t fs input c k
  | handleError c error => exact handleError_move cfg s t fs input c error
  | handleTimeout c => exact handleTimeout_move cfg s t fs input c
  | rejected c => exact .rejected
  | onDone c => exact .onDone
  | processRequestQueue =>
    simp only [State.frame]
    split
    · exact processRequestQueue_move cfg s t fs _ _
    · exact .wait
  | pick hosts i => exact pick_move cfg s t fs input hosts i
  | dequeue c hosts => exact dequeue_move cfg s t fs input c hosts
  | onReady events => exact onReady_move cfg s t fs input events
  | handleConnectionQueue =>
    simp only [State.frame]
    split
    · exact handleConnectionQueue_move cfg s t fs _ _ rfl
    · exact .wait
  | insertConnection c => exact .insertConnection
  | handleRequestsQueue => exact handleRequestsQueue_move cfg s t fs input
  | modifyFd c => exact .modifyFd
  | eraseTimeout c k => exact .eraseTimeout
  | handleIncoming c totalBytes =>
    simp only [State.frame]
    split
    · exact handleIncoming_move cfg s t fs _ c totalBytes _ rfl
    · exact .wait
  | remoteClosed c => exact .remoteClosed
  | handleResponsePacket c =>
    simp only [State.frame]
    split
    · exact handleResponsePacket_move cfg s t fs _ c _ rfl
    · exact .wait
  | resolved c => exact .resolved
  | tryBlock c => exact .plain .tryBlock
  | throwing what =>
    simp only [State.frame]
    cases fs with
    | nil =>
      simp only [State.throwing]
      split
      · exact .abort
      · exact .thrown rfl
    | cons g gs =>
      simp only [State.throwing]
      split
      · rename_i h
        rw [h.2]
        exact .caught rfl
      · rename_i h
        unfold State.unwind
        split
        · exact .catch_ rfl (.inl rfl)
        · exact .catch_ rfl (.inr rfl)
        · rename_i hresolved htry
          exact .unwind rfl (fun c => hresolved c) (fun c => htry c) (not_and_or.mp h)

end

/-- A step changes the stack of its own thread. -/
theorem Move.stack {cfg : Config T} {s s' : State T} {t : T} {fs : List Frame} {input : Input}
    {f : Frame} (h : Move cfg s t fs input f s') :
    s'.stack = Function.update s.stack t (s'.stack t) := by
  cases h with
  | wait => rw [Function.update_eq_self]
  | abort => exact (Function.update_eq_self t s.stack).symm
  | _ => simp [State.goto, State.call, State.doRequest, State.connected, State.setEntry,
      State.reset, State.onDone, State.insertConnection, State.modifyFd, State.eraseTimeout,
      State.remoteClosed, State.setConn, State.setTimer, State.setTransport, State.setQueue,
      State.setLock, State.settle, State.releaseTimer, State.associateTransport]

/-! ## Runs -/

-- the parts of the steps, which the proofs about a step unfold
attribute [simp] State.goto State.setConn State.setTimer State.setTransport State.setQueue
  State.setLock State.settle State.abort State.call State.doRequest State.connected State.setEntry
  State.reset State.onDone State.insertConnection State.modifyFd State.eraseTimeout
  State.remoteClosed State.releaseTimer State.associateTransport

section

variable (s : State T) (t : T) (fs : List Frame)

-- the stack of the thread, before the rest of the state is looked at
@[simp ↓] theorem State.goto_stack : (s.goto t fs).stack t = fs := Function.update_self ..

@[simp ↓] theorem State.call_stack (resource : Bytes) (timeout : Int) (size : Nat) :
    (s.call t resource timeout size fs).stack t =
      .pickConnection ⟨s.requests.length, resource, timeout, size⟩ 0 ::
        .doRequest ⟨s.requests.length, resource, timeout, size⟩ :: fs :=
  State.goto_stack ..

@[simp ↓] theorem State.doRequest_stack (r : Request) : (s.doRequest t r fs).stack t = fs :=
  State.goto_stack ..

@[simp ↓] theorem State.connected_stack (c : ConnId) :
    (s.connected t c fs).stack t = .processRequests c :: fs :=
  State.goto_stack ..

@[simp ↓] theorem State.setEntry_stack (c : ConnId) (r : Request) (timer : Option Nat) :
    (s.setEntry t c r timer fs).stack t = .asyncSendRequest c r timer :: fs :=
  State.goto_stack ..

@[simp ↓] theorem State.reset_stack (c : ConnId) : (s.reset t c fs).stack t = .onDone c :: fs :=
  State.goto_stack ..

@[simp ↓] theorem State.onDone_stack (c : ConnId) :
    (s.onDone t c fs).stack t = .processRequestQueue :: fs :=
  State.goto_stack ..

@[simp ↓] theorem State.insertConnection_stack (c : ConnId) :
    (s.insertConnection t c fs).stack t = fs :=
  State.goto_stack ..

@[simp ↓] theorem State.modifyFd_stack (c : ConnId) : (s.modifyFd t c fs).stack t = fs :=
  State.goto_stack ..

@[simp ↓] theorem State.eraseTimeout_stack (c : ConnId) (k : Nat) :
    (s.eraseTimeout t c k fs).stack t = fs :=
  State.goto_stack ..

@[simp ↓] theorem State.remoteClosed_stack (c : ConnId) : (s.remoteClosed t c fs).stack t = fs :=
  State.goto_stack ..

end

/-- What an event does. -/
inductive Happens (cfg : Config T) (s : State T) : Event T → State T → Prop where
  | nothing {event : Event T} : Happens cfg s event s
  | tick {d : Nat} : Happens cfg s (.tick d) { s with now := s.now + d }
  | frame {t : T} {input : Input} {f : Frame} {fs : List Frame} {s' : State T} :
    s.stack t = f :: fs → Move cfg s t fs input f s' → Happens cfg s (.thread t input) s'
  | poll {t : T} {events : List Ready} :
    s.stack t = [] → t ∈ cfg.workers → s.locked (.handlingMutex t) = none →
    (events.map Ready.fd).Nodup → (∀ e ∈ events, s.Polled t e) →
    Happens cfg s (.thread t (.poll events))
      (({ s with conn := s.reported events }.setLock (.handlingMutex t) (some t)).goto t
        [.onReady events])
  | call {t : T} {resource : Bytes} {timeout : Int} {size : Nat} :
    s.stack t = [] → t ∉ cfg.workers →
    Happens cfg s (.thread t (.doRequest resource timeout size))
      (s.call t resource timeout size [])

/-- **An event.** -/
theorem next_happens (cfg : Config T) (s : State T) (event : Event T) :
    Happens cfg s event (next cfg s event) := by
  cases event with
  | tick d => exact .tick
  | thread t input =>
    simp only [next]
    split
    · exact .nothing
    · split
      · rename_i hstack
        unfold State.idle
        split
        · split
          · rename_i hworker
            unfold State.poll
            split
            · rename_i h
              exact .poll hstack hworker h.1 h.2.1 h.2.2
            · exact .nothing
          · exact .nothing
        · split
          · exact .nothing
          · rename_i hworker
            exact .call hstack hworker
        · exact .nothing
      · rename_i f fs hstack
        exact .frame hstack (frame_move cfg s t fs input f)

/-- A thread with nothing under way begins with the frames `gs`. -/
structure Begins (s s' : State T) (t : T) (gs : List Frame) : Prop where
  idle : s.stack t = []
  stack : s'.stack = Function.update s.stack t gs
  conn : ∀ c, s'.conn c = { s.conn c with watch := (s'.conn c).watch }
  transport : s'.transport = s.transport
  queue : s'.queue = s.queue
  hosts : s'.hosts = s.hosts
  outcomes : s'.outcomes = s.outcomes
  armed : s'.armed = s.armed
  written : s'.written = s.written
  now : s'.now = s.now

theorem Begins.poll {s : State T} {t : T} {events : List Ready} (h : s.stack t = []) :
    Begins s (({ s with conn := s.reported events }.setLock (.handlingMutex t) (some t)).goto t
      [.onReady events]) t [.onReady events] where
  idle := h
  stack := rfl
  conn c := by
    simp only [State.goto, State.setLock, State.reported]
    split <;> rfl
  transport := rfl
  queue := rfl
  hosts := rfl
  outcomes := rfl
  armed := rfl
  written := rfl
  now := rfl

theorem Begins.call {s : State T} {t : T} {resource : Bytes} {timeout : Int} {size : Nat}
    (h : s.stack t = []) : Begins s (s.call t resource timeout size []) t
      [.pickConnection ⟨s.requests.length, resource, timeout, size⟩ 0,
        .doRequest ⟨s.requests.length, resource, timeout, size⟩] :=
  ⟨h, rfl, fun _ => rfl, rfl, rfl, rfl, rfl, rfl, rfl, rfl⟩

namespace Begins

variable {s s' : State T} {t : T} {gs : List Frame} (h : Begins s s' t gs)

include h

theorem kept {u : T} {g : Frame} (hg : g ∈ s.stack u) : g ∈ s'.stack u := by
  have hu : u ≠ t := by
    rintro rfl
    rw [h.idle] at hg
    cases hg
  rwa [h.stack, Function.update_of_ne hu]

theorem old {u : T} {g : Frame} (hg : g ∈ s'.stack u) : g ∈ s.stack u ∨ g ∈ gs := by
  rw [h.stack] at hg
  by_cases hu : u = t
  · subst hu
    rw [Function.update_self] at hg
    exact .inr hg
  · rw [Function.update_of_ne hu] at hg
    exact .inl hg

theorem top {g : Frame} (hg : g ∈ gs) : g ∈ s'.stack t := by
  rwa [h.stack, Function.update_self]

end Begins

/-- Invariants under a condition on the events. -/
theorem always_inv {cfg : Config T} {P : State T → Event T → Prop} {I : State T → Prop}
    (hstart : I start)
    (hstep : ∀ s event s', I s → P s event → Happens cfg s event s' → I s')
    {events : List (Event T)} (h : Machine.Always (next cfg) P start events) :
    I (run cfg start events) :=
  Machine.Always.inv (fun s event hs hP => hstep s event _ hs hP (next_happens cfg s event)) events
    start hstart h

/-- Invariants. -/
theorem run_inv {cfg : Config T} {I : State T → Prop} (hstart : I start)
    (hstep : ∀ s event s', I s → Happens cfg s event s' → I s') (events : List (Event T)) :
    I (run cfg start events) :=
  Machine.run_inv (fun s event hs => hstep s event _ hs (next_happens cfg s event)) events start
    hstart

end Pistache.Experimental
