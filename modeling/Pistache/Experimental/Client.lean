import Mathlib.Data.List.Perm.Basic
import Mathlib.Logic.Function.Basic
import Pistache.Common.Stream
import Pistache.Experimental.Send
import Pistache.Lib.Machine

/-!
# The client

`Client`, its `ConnectionPool`, the `Connection`s and the `Transport`s, run by any number of
threads: the threads of the transports, which wait for the poller, and the others, which call
`doRequest`.  A step is one action of one thread on what the threads share; in between stands the
stack of the calls that the thread has under way, each a `Frame` with what it still has to do.

* `next` — a step of a thread, one definition for each function of the source.
* `Frame.lock` — the mutex that a thread holds while it has a frame.

A promise is the number of its request.  Once `doRequest` has returned it, a continuation of the
user may run where it is settled, and call `doRequest` in turn.  A socket is named by its
connection: its descriptor is closed only behind the removal of its entry from `connections`, and
the timers of a connection, which keep their descriptors, are named by their place in its pool.
The pool of a host, made when the host is first seen, is there from the start.
-/

set_option autoImplicit false

namespace Pistache.Experimental

/-! ## Requests -/

/-- `match_literal('.', cursor)`. -/
def skipDot : Bytes → Bytes
  | [] => []
  | c :: cursor => if c = 46 then cursor else c :: cursor

/-- The host at the front of what follows the scheme, without the subdomain. -/
def splitHost (cursor : Bytes) : Bytes :=
  let cursor := skipDot ((match_string (lit "www") cursor).getD cursor)
  cursor.takeWhile fun c => c ≠ 63 ∧ c ≠ 47

/-- `splitUrl(url, true, &https)`: whether the scheme is https, and the host. -/
def splitUrl (url : Bytes) : Bool × Bytes :=
  match match_string (lit "http://") url with
  | some cursor => (false, splitHost cursor)
  | none =>
    match match_string (lit "https://") url with
    | some cursor => (true, splitHost cursor)
    | none => (false, splitHost url)

/-- A request, with the number of the call of `doRequest` that it was given to. -/
structure Request where
  id : Nat
  resource : Bytes
  /-- in milliseconds -/
  timeout : Int
  /-- the size of what `writeRequest` makes of it -/
  size : Nat
  deriving DecidableEq, Repr

def Request.https (r : Request) : Bool := (splitUrl r.resource).1

/-- The key of the pool and of the queue. -/
def Request.host (r : Request) : Bytes := (splitUrl r.resource).2

/-! ## Connections -/

/-- A connection of the pool of a host. -/
structure ConnId where
  host : Bytes
  index : Nat
  deriving DecidableEq, Repr

inductive ConnectionState where
  | NotConnected
  | Connecting
  | Connected
  deriving DecidableEq, Repr

/-- `TimerPool::Entry`, with its state in the kernel. -/
structure Timer where
  used : Bool := false
  registered : Bool := false
  /-- the time, in nanoseconds, at which it expires -/
  expiry : Option Nat := none
  deriving DecidableEq, Repr

/-- `Connection::RequestEntry`; the callback of each one releases the connection and processes
the queues. -/
structure RequestEntry where
  request : Request
  timer : Option Nat
  deriving DecidableEq, Repr

/-- The promise of `asyncConnect`. -/
inductive Attempt where
  | pending
  | resolved
  | rejected
  deriving DecidableEq, Repr

/-- What the poller is asked to report of a socket. -/
inductive Watch where
  | none
  /-- writable or hung up, once -/
  | write
  | read
  deriving DecidableEq, Repr

structure Connection (T : Type) where
  /-- `state_` -/
  used : Bool := false
  connectionState : ConnectionState := .NotConnected
  transport : Option T := none
  /-- `fd_or_ssl_conn_`, when it holds a descriptor: whether that is one of TLS -/
  socket : Option Bool := none
  requestsQueue : List Request := []
  requestEntry : Option RequestEntry := none
  timers : Nat → Timer := fun _ => {}
  attempt : Attempt := .pending
  /-- `then` has been called on that promise -/
  attached : Bool := false
  watch : Watch := .none
  /-- `connections` of the transport has its descriptor -/
  listed : Bool := false

/-- `Const::DefaultTimerPoolSize`. -/
def timerPoolSize : Nat := 128

/-- The timer that `pickTimer` finds. -/
def Connection.pickTimer {T : Type} (conn : Connection T) : Option Nat :=
  (List.range timerPoolSize).find? fun k => !(conn.timers k).used

/-- The timers behind `disarm` and `releaseTimer`. -/
def released (timers : Nat → Timer) : Option Nat → Nat → Timer
  | some k => Function.update timers k { timers k with used := false, expiry := none }
  | none => timers

/-- The time that `armMs` sets, in milliseconds: whole seconds from one second on. -/
def armMs (value : Int) : Nat :=
  if value < 1000 then value.toNat else (value / 1000).toNat * 1000

def nanoseconds (milliseconds : Nat) : Nat := milliseconds * 1000000

/-- `Transport::RequestEntry`. -/
structure Sent where
  conn : ConnId
  request : Request
  timer : Option Nat
  deriving DecidableEq, Repr

structure Transport where
  requestsQueue : List Sent := []
  connectionsQueue : List ConnId := []
  timeouts : List (ConnId × Nat) := []

/-! ## Threads -/

inductive Mutex (T : Type) where
  | queuesLock
  | connsLock
  | timeoutsLock (transport : T)
  | handlingMutex (transport : T)
  deriving DecidableEq

/-- What has become of a promise. -/
inductive Outcome where
  | resolved
  | rejected (error : String)
  /-- with the time of the timer event -/
  | timedOut (time : Nat)
  deriving DecidableEq, Repr

/-- What the poller reports of a socket. -/
inductive Readiness where
  | readable
  | writable
  | hangup
  deriving DecidableEq, Repr

/-- An event of a batch. -/
inductive Ready where
  | connectionsQueue
  | requestsQueue
  | socket (c : ConnId) (readiness : Readiness)
  | timer (c : ConnId) (timer : Nat)
  deriving DecidableEq, Repr

/-- The descriptor of an event; a batch has one event for each. -/
inductive Descriptor where
  | connectionsQueue
  | requestsQueue
  | socket (c : ConnId)
  | timer (c : ConnId) (timer : Nat)
  deriving DecidableEq, Repr

def Ready.fd : Ready → Descriptor
  | connectionsQueue => .connectionsQueue
  | requestsQueue => .requestsQueue
  | socket c _ => .socket c
  | timer c k => .timer c k

/-- A call under way, at the point it has come to. -/
inductive Frame where
  /-- a continuation of the user -/
  | user
  /-- `doRequest` is about to return -/
  | doRequest (r : Request)
  /-- `pickConnection`, at the connection with this index -/
  | pickConnection (r : Request) (index : Nat)
  /-- no connection has been found -/
  | enqueue (r : Request)
  /-- a connection has been found -/
  | found (r : Request) (c : ConnId)
  /-- behind `asyncPerform` -/
  | connect (r : Request) (c : ConnId)
  /-- behind `asyncConnect`, before `then` -/
  | attach (c : ConnId)
  /-- the last test of `connectSsl` -/
  | checkFd (c : ConnId)
  /-- the continuation of `connectSocket` and `connectSsl` -/
  | connected (c : ConnId)
  /-- `Connection::processRequestQueue` -/
  | processRequests (c : ConnId)
  | performImpl (c : ConnId) (r : Request)
  /-- `performImpl`, with its timer -/
  | setEntry (c : ConnId) (r : Request) (timer : Option Nat)
  | asyncSendRequest (c : ConnId) (r : Request) (timer : Option Nat)
  | asyncSendRequestImpl (c : ConnId) (r : Request) (timer : Option Nat)
  /-- its loop -/
  | send (c : ConnId) (r : Request) (timer : Option Nat) (totalWritten : Nat)
  /-- behind its loop, with a timer -/
  | insertTimeout (c : ConnId) (timer : Nat)
  | handleError (c : ConnId) (error : String)
  | handleTimeout (c : ConnId)
  /-- `handleError` and `handleTimeout` behind `reject` -/
  | rejected (c : ConnId)
  | onDone (c : ConnId)
  /-- `Client::processRequestQueue` -/
  | processRequestQueue
  /-- its loops, with the hosts from the current one on: `pickConnection` -/
  | pick (hosts : List Bytes) (index : Nat)
  /-- its loops, with a connection -/
  | dequeue (c : ConnId) (hosts : List Bytes)
  | onReady (events : List Ready)
  | handleConnectionQueue
  /-- `handleConnectionQueue` behind the `resolve` of a TLS connection -/
  | insertConnection (c : ConnId)
  | handleRequestsQueue
  /-- `handleWritableEntry` behind `resolve` -/
  | modifyFd (c : ConnId)
  /-- `handleReadableEntry` behind `handleTimeout` -/
  | eraseTimeout (c : ConnId) (timer : Nat)
  /-- `handleIncoming`, and whether it has read bytes -/
  | handleIncoming (c : ConnId) (totalBytes : Bool)
  /-- `handleIncoming` at its end, when the remote has closed -/
  | remoteClosed (c : ConnId)
  | handleResponsePacket (c : ConnId)
  /-- `handleResponsePacket` behind `resolve` -/
  | resolved (c : ConnId)
  /-- `handleResponsePacket`, in its `try` block, behind its last call -/
  | tryBlock (c : ConnId)
  /-- an exception on its way -/
  | throwing (what : String)
  deriving DecidableEq, Repr

/-- The mutex that a thread holds while it has the frame. -/
def Frame.lock {T : Type} (t : T) : Frame → Option (Mutex T)
  | .pick _ _ => some .queuesLock
  | .dequeue _ _ => some .queuesLock
  | .eraseTimeout _ _ => some (.timeoutsLock t)
  | .onReady _ => some (.handlingMutex t)
  | _ => none

structure State (T : Type) where
  conn : ConnId → Connection T := fun _ => {}
  transport : T → Transport := fun _ => {}
  /-- `requestsQueues`, and its keys -/
  queue : Bytes → List Request := fun _ => []
  hosts : List Bytes := []
  ioIndex : Nat := 0
  locked : Mutex T → Option T := fun _ => none
  stack : T → List Frame := fun _ => []
  /-- in nanoseconds -/
  now : Nat := 0
  /-- the requests that `doRequest` has been given -/
  requests : List Request := []
  /-- the calls that have returned a promise -/
  returned : Nat → Bool := fun _ => false
  outcomes : Nat → List Outcome := fun _ => []
  /-- the timers armed for a request: when, and the timeout of the request -/
  armed : Nat → List (Nat × Int) := fun _ => []
  /-- the requests of which bytes have been written, to a TLS socket or a plain one -/
  written : List (Request × Bool) := []
  /-- the process is gone -/
  aborted : Bool := false

/-- The threads of the transports, and the size of a pool. -/
structure Config (T : Type) where
  workers : List T
  maxConnectionsPerHost : Nat

/-- What the kernel answers to `recv`. -/
inductive RecvResult where
  | EAGAIN
  | error (what : String)
  | closed
  | bytes
  /-- bytes, and the buffer can not grow any more -/
  | full
  deriving DecidableEq, Repr

/-- What the parser makes of the bytes. -/
inductive Parsed where
  | tooLong
  | Again
  | raised (what : String)
  | Done
  deriving DecidableEq, Repr

/-- What a step takes from outside. -/
inductive Input where
  | go
  /-- user code: a call of `doRequest`, the end of a continuation, an exception, a handler -/
  | doRequest (resource : Bytes) (timeout : Int) (size : Nat)
  | return_
  | throw_
  | catch_
  /-- the poller returns -/
  | poll (events : List Ready)
  /-- whether the socket could be made, or `connect` has not failed at once -/
  | connect (ok : Bool)
  | send (result : SendResult)
  | recv (result : RecvResult)
  | parse (parsed : Parsed)
  /-- the order in which `requestsQueues` is gone through -/
  | order (hosts : List Bytes)
  deriving DecidableEq, Repr

variable {T : Type} [DecidableEq T]

def unlock (locked : Mutex T → Option T) : Option (Mutex T) → Mutex T → Option T
  | some m => Function.update locked m none
  | none => locked

namespace State

/-! ## Parts of steps -/

/-- The stack of the thread `t` is `fs` from here on. -/
def goto (s : State T) (t : T) (fs : List Frame) : State T :=
  { s with stack := Function.update s.stack t fs }

def setConn (s : State T) (c : ConnId) (conn : Connection T) : State T :=
  { s with conn := Function.update s.conn c conn }

def setTimer (s : State T) (c : ConnId) (k : Nat) (timer : Timer) : State T :=
  s.setConn c { s.conn c with timers := Function.update (s.conn c).timers k timer }

def setTransport (s : State T) (w : T) (transport : Transport) : State T :=
  { s with transport := Function.update s.transport w transport }

def setQueue (s : State T) (host : Bytes) (queue : List Request) : State T :=
  { s with queue := Function.update s.queue host queue }

def setLock (s : State T) (m : Mutex T) (owner : Option T) : State T :=
  { s with locked := Function.update s.locked m owner }

def settle (s : State T) (id : Nat) (outcome : Outcome) : State T :=
  { s with outcomes := Function.update s.outcomes id (outcome :: s.outcomes id) }

def abort (s : State T) : State T := { s with aborted := true }

/-- `disarm` and `releaseTimer`, when there is a timer. -/
def releaseTimer (s : State T) (c : ConnId) (timer : Option Nat) : State T :=
  s.setConn c { s.conn c with timers := released (s.conn c).timers timer }

/-- The continuation of the user runs where the promise is settled. -/
def continuation (s : State T) (r : Request) : List Frame :=
  if s.returned r.id then [.user] else []

/-! ## `Client::doRequest` -/

def call (s : State T) (t : T) (resource : Bytes) (timeout : Int) (size : Nat) (fs : List Frame) :
    State T :=
  let r : Request := ⟨s.requests.length, resource, timeout, size⟩
  { s with requests := s.requests ++ [r] }.goto t (.pickConnection r 0 :: .doRequest r :: fs)

def doRequest (s : State T) (t : T) (r : Request) (fs : List Frame) : State T :=
  { s with returned := Function.update s.returned r.id true }.goto t fs

/-- The lock is held around the look at the map, before the first connection. -/
def pickConnection (cfg : Config T) (s : State T) (t : T) (r : Request) (index : Nat)
    (fs : List Frame) : State T :=
  let c : ConnId := ⟨r.host, index⟩
  if index = 0 ∧ s.locked .connsLock ≠ none then s
  else if index < cfg.maxConnectionsPerHost then
    if (s.conn c).used then s.goto t (.pickConnection r (index + 1) :: fs)
    else (s.setConn c { s.conn c with used := true }).goto t (.found r c :: fs)
  else s.goto t (.enqueue r :: fs)

/-- The capacity of an `MPMCQueue` of the client. -/
def queueSize : Nat := 2048

def enqueue (s : State T) (t : T) (r : Request) (fs : List Frame) : State T :=
  if s.locked .queuesLock ≠ none then s
  else
    let s := { s with hosts := s.hosts.insert r.host }
    if (s.queue r.host).length < queueSize then
      (s.setQueue r.host (s.queue r.host ++ [r])).goto t fs
    else (s.settle r.id (.rejected "Queue is full")).goto t fs

/-- `associateTransport`, for a connection that has none. -/
def associateTransport (cfg : Config T) (s : State T) (c : ConnId) : State T :=
  let transport := cfg.workers[s.ioIndex % 2 ^ 64 % cfg.workers.length]?
  { s with ioIndex := if (s.conn c).transport = none then s.ioIndex + 1 else s.ioIndex }.setConn c
    { s.conn c with transport := (s.conn c).transport.or transport }

def found (cfg : Config T) (s : State T) (t : T) (r : Request) (c : ConnId) (fs : List Frame) :
    State T :=
  let s := s.associateTransport cfg c
  if (s.conn c).connectionState = .Connected then s.goto t (.performImpl c r :: fs)
  else
    (s.setConn c { s.conn c with requestsQueue := (s.conn c).requestsQueue ++ [r] }).goto t
      (.connect r c :: fs)

/-- `Connection::connect`: the address or the socket may fail; then `asyncConnect`. -/
def connect (s : State T) (t : T) (r : Request) (c : ConnId) (ok : Bool) (fs : List Frame) :
    State T :=
  if ok then
    match (s.conn c).transport with
    | none => s.abort
    | some w =>
      let s := s.setConn c
        { s.conn c with
          connectionState := .Connecting
          socket := some r.https
          attempt := .pending
          attached := false }
      let s := s.setTransport w
        { s.transport w with connectionsQueue := (s.transport w).connectionsQueue ++ [c] }
      s.goto t (.attach c :: if r.https then .checkFd c :: fs else fs)
  else s.goto t (.throwing "Failed to connect" :: fs)

/-- `then` on the promise of `asyncConnect`: a rejection is printed. -/
def attach (s : State T) (t : T) (c : ConnId) (fs : List Frame) : State T :=
  match (s.conn c).attempt with
  | .pending => (s.setConn c { s.conn c with attached := true }).goto t fs
  | .resolved => s.goto t (.connected c :: fs)
  | .rejected => s.goto t fs

def checkFd (s : State T) (t : T) (c : ConnId) (fs : List Frame) : State T :=
  if (s.conn c).socket = none then s.goto t (.throwing "Failed to connect" :: fs) else s.goto t fs

/-! ## `Connection` -/

def connected (s : State T) (t : T) (c : ConnId) (fs : List Frame) : State T :=
  (s.setConn c { s.conn c with connectionState := .Connected }).goto t (.processRequests c :: fs)

/-- `Connection::processRequestQueue`. -/
def processRequests (s : State T) (t : T) (c : ConnId) (fs : List Frame) : State T :=
  match (s.conn c).requestsQueue with
  | [] => s.goto t fs
  | r :: queue =>
    (s.setConn c { s.conn c with requestsQueue := queue }).goto t
      (.performImpl c r :: .processRequests c :: fs)

/-- A pool without an idle timer gives null. -/
def performImpl (s : State T) (t : T) (c : ConnId) (r : Request) (fs : List Frame) : State T :=
  if 0 < r.timeout then
    match (s.conn c).pickTimer with
    | none => s.abort
    | some k =>
      let s := s.setTimer c k
        { (s.conn c).timers k with
          used := true, expiry := some (s.now + nanoseconds (armMs r.timeout)) }
      { s with armed := Function.update s.armed r.id ((s.now, r.timeout) :: s.armed r.id) }.goto t
        (.setEntry c r (some k) :: fs)
  else s.goto t (.setEntry c r none :: fs)

def setEntry (s : State T) (t : T) (c : ConnId) (r : Request) (timer : Option Nat)
    (fs : List Frame) : State T :=
  (s.setConn c { s.conn c with requestEntry := some ⟨r, timer⟩ }).goto t
    (.asyncSendRequest c r timer :: fs)

/-- What `handleError` and `handleTimeout` do with the entry.  To reject a promise that is
settled throws. -/
def reject (s : State T) (t : T) (c : ConnId) (e : RequestEntry) (outcome : Outcome)
    (fs : List Frame) : State T :=
  let s := s.releaseTimer c e.timer
  if s.outcomes e.request.id = [] then
    (s.settle e.request.id outcome).goto t (s.continuation e.request ++ .rejected c :: fs)
  else s.goto t (.throwing "Attempt to reject a fulfilled promise" :: fs)

def handleError (s : State T) (t : T) (c : ConnId) (error : String) (fs : List Frame) : State T :=
  match (s.conn c).requestEntry with
  | none => s.goto t fs
  | some e => s.reject t c e (.rejected error) fs

/-- The timer of the entry is taken to be there. -/
def handleTimeout (s : State T) (t : T) (c : ConnId) (fs : List Frame) : State T :=
  match (s.conn c).requestEntry with
  | none => s.goto t fs
  | some e => if e.timer = none then s.abort else s.reject t c e (.timedOut s.now) fs

/-- `requestEntry.reset(nullptr)`, then `onDone`. -/
def reset (s : State T) (t : T) (c : ConnId) (fs : List Frame) : State T :=
  (s.setConn c { s.conn c with requestEntry := none }).goto t (.onDone c :: fs)

/-- The callback of a request. -/
def onDone (s : State T) (t : T) (c : ConnId) (fs : List Frame) : State T :=
  (s.setConn c { s.conn c with used := false }).goto t (.processRequestQueue :: fs)

def handleResponsePacket (s : State T) (t : T) (c : ConnId) (parsed : Parsed) (fs : List Frame) :
    State T :=
  match parsed with
  | .tooLong => s.goto t (.handleError c "Client: Too long packet" :: .tryBlock c :: fs)
  | .Again => s.goto t fs
  | .raised what => s.goto t (.handleError c what :: fs)
  | .Done =>
    match (s.conn c).requestEntry with
    | none => s.goto t fs
    | some e =>
      let s := s.releaseTimer c e.timer
      if s.outcomes e.request.id = [] then
        (s.settle e.request.id .resolved).goto t (s.continuation e.request ++ .resolved c :: fs)
      else s.goto t (.handleError c "Attempt to resolve a fulfilled promise" :: fs)

/-! ## `Client::processRequestQueue` -/

def processRequestQueue (s : State T) (t : T) (hosts : List Bytes) (fs : List Frame) : State T :=
  if s.locked .queuesLock = none ∧ hosts.Perm s.hosts then
    (s.setLock .queuesLock (some t)).goto t (.pick hosts 0 :: fs)
  else s

def pick (cfg : Config T) (s : State T) (t : T) (hosts : List Bytes) (index : Nat)
    (fs : List Frame) : State T :=
  match hosts with
  | [] => (s.setLock .queuesLock none).goto t fs
  | host :: rest =>
    let c : ConnId := ⟨host, index⟩
    if index = 0 ∧ s.locked .connsLock ≠ none then s
    else if index < cfg.maxConnectionsPerHost then
      if (s.conn c).used then s.goto t (.pick (host :: rest) (index + 1) :: fs)
      else (s.setConn c { s.conn c with used := true }).goto t (.dequeue c (host :: rest) :: fs)
    else s.goto t (.pick rest 0 :: fs)

def dequeue (s : State T) (t : T) (c : ConnId) (hosts : List Bytes) (fs : List Frame) : State T :=
  match s.queue c.host with
  | [] => (s.setConn c { s.conn c with used := false }).goto t (.pick hosts.tail 0 :: fs)
  | r :: queue => (s.setQueue c.host queue).goto t (.performImpl c r :: .pick hosts 0 :: fs)

/-! ## `Transport` -/

def asyncSendRequest (s : State T) (t : T) (c : ConnId) (r : Request) (timer : Option Nat)
    (fs : List Frame) : State T :=
  match (s.conn c).transport with
  | none => s.abort
  | some w =>
    if w = t then s.goto t (.asyncSendRequestImpl c r timer :: fs)
    else
      (s.setTransport w
        { s.transport w with
          requestsQueue := (s.transport w).requestsQueue ++ [⟨c, r, timer⟩] }).goto t fs

def asyncSendRequestImpl (s : State T) (t : T) (c : ConnId) (r : Request) (timer : Option Nat)
    (fs : List Frame) : State T :=
  if (s.conn c).socket = none then s.goto t (.handleError c "Could not send request" :: fs)
  else s.goto t (.send c r timer 0 :: fs)

/-- `conn->isSsl()`. -/
def isSsl (s : State T) (c : ConnId) : Bool := (s.conn c).socket = some true

def send (s : State T) (t : T) (c : ConnId) (r : Request) (timer : Option Nat)
    (totalWritten : Nat) (result : SendResult) (fs : List Frame) : State T :=
  match iteration r.size totalWritten result with
  | .again total =>
    { s with written := (r, s.isSsl c) :: s.written }.goto t (.send c r timer total :: fs)
  | .resolve _ =>
    { s with written := (r, s.isSsl c) :: s.written }.goto t
      (match timer with
        | some k => .insertTimeout c k :: fs
        | none => fs)
  | .throws what => s.goto t (.throwing what :: fs)
  | .handleError error => s.goto t (.handleError c error :: fs)

/-- `timeouts.insert`, `registerReactor`, and `resolve`, to which nothing is attached. -/
def insertTimeout (s : State T) (t : T) (c : ConnId) (k : Nat) (fs : List Frame) : State T :=
  if s.locked (.timeoutsLock t) ≠ none then s
  else
    let s := s.setTransport t
      { s.transport t with timeouts := (s.transport t).timeouts.insert (c, k) }
    (s.setTimer c k { (s.conn c).timers k with registered := true }).goto t fs

def rejectAttempt (s : State T) (t : T) (c : ConnId) (fs : List Frame) : State T :=
  match (s.conn c).attempt with
  | .pending => (s.setConn c { s.conn c with attempt := .rejected }).goto t fs
  | _ => s.goto t (.throwing "Attempt to reject a fulfilled promise" :: fs)

def resolveAttempt (s : State T) (t : T) (c : ConnId) (fs : List Frame) : State T :=
  match (s.conn c).attempt with
  | .pending =>
    (s.setConn c { s.conn c with attempt := .resolved }).goto t
      (if (s.conn c).attached then .connected c :: fs else fs)
  | _ => s.goto t (.throwing "Attempt to resolve a fulfilled promise" :: fs)

def handleConnectionQueue (s : State T) (t : T) (ok : Bool) (fs : List Frame) : State T :=
  match (s.transport t).connectionsQueue with
  | [] => s.goto t fs
  | c :: queue =>
    let s := s.setTransport t { s.transport t with connectionsQueue := queue }
    match (s.conn c).socket with
    | none => s.rejectAttempt t c (.handleConnectionQueue :: fs)
    | some true =>
      (s.setConn c { s.conn c with watch := .write }).resolveAttempt t c
        (.insertConnection c :: .handleConnectionQueue :: fs)
    | some false =>
      if ok then
        (s.setConn c { s.conn c with watch := .write, listed := true }).goto t
          (.handleConnectionQueue :: fs)
      else s.rejectAttempt t c (.handleConnectionQueue :: fs)

def insertConnection (s : State T) (t : T) (c : ConnId) (fs : List Frame) : State T :=
  (s.setConn c { s.conn c with watch := .read, listed := true }).goto t fs

def handleRequestsQueue (s : State T) (t : T) (fs : List Frame) : State T :=
  match (s.transport t).requestsQueue with
  | [] => s.goto t fs
  | e :: queue =>
    (s.setTransport t { s.transport t with requestsQueue := queue }).goto t
      (.asyncSendRequestImpl e.conn e.request e.timer :: .handleRequestsQueue :: fs)

/-- The descriptor is looked up in `connections`, then in `timeouts` under its lock. -/
def handleReadableEntry (s : State T) (t : T) (c : ConnId) (timer : Option Nat)
    (fs : List Frame) : State T :=
  if timer = none ∧ (s.conn c).listed then s.goto t (.handleIncoming c false :: fs)
  else if s.locked (.timeoutsLock t) ≠ none then s
  else
    match timer with
    | some k =>
      if (c, k) ∈ (s.transport t).timeouts then
        (s.setLock (.timeoutsLock t) (some t)).goto t (.handleTimeout c :: .eraseTimeout c k :: fs)
      else s.goto t fs
    | none => s.goto t fs

def eraseTimeout (s : State T) (t : T) (c : ConnId) (k : Nat) (fs : List Frame) : State T :=
  let s := s.setTransport t { s.transport t with timeouts := (s.transport t).timeouts.erase (c, k) }
  (s.setLock (.timeoutsLock t) none).goto t fs

def handleWritableEntry (s : State T) (t : T) (c : ConnId) (fs : List Frame) : State T :=
  if (s.conn c).listed then
    if (s.conn c).socket = none then s.rejectAttempt t c fs
    else s.resolveAttempt t c (.modifyFd c :: fs)
  else s.goto t (.throwing "Unknown fd" :: fs)

def modifyFd (s : State T) (t : T) (c : ConnId) (fs : List Frame) : State T :=
  (s.setConn c { s.conn c with watch := .read }).goto t fs

def handleHangupEntry (s : State T) (t : T) (c : ConnId) (fs : List Frame) : State T :=
  if (s.conn c).listed then s.rejectAttempt t c fs else s.goto t (.throwing "Unknown fd" :: fs)

def handleIncoming (s : State T) (t : T) (c : ConnId) (totalBytes : Bool) (result : RecvResult)
    (fs : List Frame) : State T :=
  if (s.conn c).socket = none then s.goto t fs
  else
    match result with
    | .EAGAIN => s.goto t (if totalBytes then .handleResponsePacket c :: fs else fs)
    | .error what => s.goto t (.handleError c what :: fs)
    | .closed =>
      s.goto t ((if totalBytes then .handleResponsePacket c
        else .handleError c "Remote closed connection") :: .remoteClosed c :: fs)
    | .bytes => s.goto t (.handleIncoming c true :: fs)
    | .full => s.goto t (.handleResponsePacket c :: fs)

/-- `connections.erase` and `closeFromRemoteClosedConnection`. -/
def remoteClosed (s : State T) (t : T) (c : ConnId) (fs : List Frame) : State T :=
  (s.setConn c
    { s.conn c with
      listed := false, connectionState := .NotConnected, socket := none, watch := .none }).goto t fs

def onReady (s : State T) (t : T) (events : List Ready) (fs : List Frame) : State T :=
  match events with
  | [] => (s.setLock (.handlingMutex t) none).goto t fs
  | .connectionsQueue :: events => s.goto t (.handleConnectionQueue :: .onReady events :: fs)
  | .requestsQueue :: events => s.goto t (.handleRequestsQueue :: .onReady events :: fs)
  | .socket c .readable :: events => s.handleReadableEntry t c none (.onReady events :: fs)
  | .socket c .writable :: events => s.handleWritableEntry t c (.onReady events :: fs)
  | .socket c .hangup :: events => s.handleHangupEntry t c (.onReady events :: fs)
  | .timer c k :: events => s.handleReadableEntry t c (some k) (.onReady events :: fs)

/-- What the poller of a transport can report. -/
def Polled (s : State T) (t : T) : Ready → Prop
  | .connectionsQueue => True
  | .requestsQueue => True
  | .socket c .readable => (s.conn c).transport = some t ∧ (s.conn c).watch = .read
  | .socket c _ => (s.conn c).transport = some t ∧ (s.conn c).watch = .write
  | .timer c k => (s.conn c).transport = some t ∧ ((s.conn c).timers k).registered ∧
      ∃ time ∈ ((s.conn c).timers k).expiry, time ≤ s.now

instance (s : State T) (t : T) : ∀ e, Decidable (s.Polled t e)
  | .connectionsQueue => .isTrue trivial
  | .requestsQueue => .isTrue trivial
  | .socket _ .readable => inferInstanceAs (Decidable (_ ∧ _))
  | .socket _ .writable => inferInstanceAs (Decidable (_ ∧ _))
  | .socket _ .hangup => inferInstanceAs (Decidable (_ ∧ _))
  | .timer _ _ => inferInstanceAs (Decidable (_ ∧ _))

/-- A report of a socket that is watched once ends the watch. -/
def reported (s : State T) (events : List Ready) (c : ConnId) : Connection T :=
  if .socket c .writable ∈ events ∨ .socket c .hangup ∈ events then
    { s.conn c with watch := .none }
  else s.conn c

/-- The poller returns to a transport, which takes its `handlingMutex`. -/
def poll (s : State T) (t : T) (events : List Ready) : State T :=
  if s.locked (.handlingMutex t) = none ∧ (events.map Ready.fd).Nodup ∧
      ∀ e ∈ events, s.Polled t e then
    ({ s with conn := s.reported events }.setLock (.handlingMutex t) (some t)).goto t
      [.onReady events]
  else s

/-! ## Exceptions -/

/-- An exception leaves a frame: its lock is given back, and the `catch` of
`handleResponsePacket` takes it. -/
def unwind (s : State T) (t : T) (what : String) (f : Frame) (fs : List Frame) : State T :=
  match f with
  | .resolved c => s.goto t (.handleError c what :: fs)
  | .tryBlock c => s.goto t (.handleError c what :: fs)
  | f => { s with locked := unlock s.locked (f.lock t) }.goto t (.throwing what :: fs)

/-- An exception that leaves the thread of a transport ends the process; in another thread it
leaves `doRequest`. -/
def throwing (cfg : Config T) (s : State T) (t : T) (what : String) (input : Input) :
    List Frame → State T
  | [] => if t ∈ cfg.workers then s.abort else s.goto t []
  | f :: fs => if input = .catch_ ∧ f = .user then s.goto t (.user :: fs) else s.unwind t what f fs

/-! ## Steps -/

/-- User code. -/
def user (s : State T) (t : T) (fs : List Frame) : Input → State T
  | .doRequest resource timeout size => s.call t resource timeout size (.user :: fs)
  | .return_ => s.goto t fs
  | .throw_ => s.goto t (.throwing "user" :: fs)
  | _ => s

/-- A step of the frame on top.  Where the input does not answer what the frame asks for, nothing
happens. -/
def frame (cfg : Config T) (s : State T) (t : T) (fs : List Frame) (input : Input) :
    Frame → State T
  | .user => s.user t fs input
  | .doRequest r => s.doRequest t r fs
  | .pickConnection r index => s.pickConnection cfg t r index fs
  | .enqueue r => s.enqueue t r fs
  | .found r c => s.found cfg t r c fs
  | .connect r c => match input with | .connect ok => s.connect t r c ok fs | _ => s
  | .attach c => s.attach t c fs
  | .checkFd c => s.checkFd t c fs
  | .connected c => s.connected t c fs
  | .processRequests c => s.processRequests t c fs
  | .performImpl c r => s.performImpl t c r fs
  | .setEntry c r timer => s.setEntry t c r timer fs
  | .asyncSendRequest c r timer => s.asyncSendRequest t c r timer fs
  | .asyncSendRequestImpl c r timer => s.asyncSendRequestImpl t c r timer fs
  | .send c r timer total =>
    match input with | .send result => s.send t c r timer total result fs | _ => s
  | .insertTimeout c k => s.insertTimeout t c k fs
  | .handleError c error => s.handleError t c error fs
  | .handleTimeout c => s.handleTimeout t c fs
  | .rejected c => s.reset t c fs
  | .onDone c => s.onDone t c fs
  | .processRequestQueue =>
    match input with | .order hosts => s.processRequestQueue t hosts fs | _ => s
  | .pick hosts index => s.pick cfg t hosts index fs
  | .dequeue c hosts => s.dequeue t c hosts fs
  | .onReady events => s.onReady t events fs
  | .handleConnectionQueue =>
    match input with | .connect ok => s.handleConnectionQueue t ok fs | _ => s
  | .insertConnection c => s.insertConnection t c fs
  | .handleRequestsQueue => s.handleRequestsQueue t fs
  | .modifyFd c => s.modifyFd t c fs
  | .eraseTimeout c k => s.eraseTimeout t c k fs
  | .handleIncoming c totalBytes =>
    match input with | .recv result => s.handleIncoming t c totalBytes result fs | _ => s
  | .remoteClosed c => s.remoteClosed t c fs
  | .handleResponsePacket c =>
    match input with | .parse parsed => s.handleResponsePacket t c parsed fs | _ => s
  | .resolved c => s.reset t c (.tryBlock c :: fs)
  | .tryBlock _ => s.goto t fs
  | .throwing what => s.throwing cfg t what input fs

/-- A thread with nothing under way: that of a transport polls, another one may call
`doRequest`. -/
def idle (cfg : Config T) (s : State T) (t : T) (input : Input) : State T :=
  match input with
  | .poll events => if t ∈ cfg.workers then s.poll t events else s
  | .doRequest resource timeout size =>
    if t ∈ cfg.workers then s else s.call t resource timeout size []
  | _ => s

end State

/-- A step of the whole: time passes, or a thread takes a step. -/
inductive Event (T : Type) where
  | tick (nanoseconds : Nat)
  | thread (t : T) (input : Input)
  deriving DecidableEq

def next (cfg : Config T) (s : State T) : Event T → State T
  | .tick d => { s with now := s.now + d }
  | .thread t input =>
    if s.aborted then s
    else
      match s.stack t with
      | [] => s.idle cfg t input
      | f :: fs => s.frame cfg t fs input f

def run (cfg : Config T) (s : State T) (events : List (Event T)) : State T :=
  Machine.run (next cfg) s events

/-- The client behind `init`. -/
def start : State T := {}

end Pistache.Experimental
