import Mathlib.Logic.Function.Basic
import Pistache.Lib.Machine
import Pistache.Tcp.Transport

/-!
# From the listener to the workers

The thread of the `Listener` accepts connections and hands each peer to the transport that its
file descriptor names; the transports, each on the thread of its worker, register the peers, read
from their sockets and close them.  The kernel may give a number that has been closed to the next
connection, and the threads may be anywhere when it does.

What only the thread itself looks at is done in one step.  A connection that the listener closes
itself, because it cannot be made non-blocking, is not in the model; TLS, timers, the notifier and
shutdown are left out, and the poller may report at any time between two entries.
-/

set_option autoImplicit false

namespace Pistache.Tcp

namespace Const

def MaxBuffer : Nat := 4096

end Const

/-! ## The state -/

/-- The socket of a connection: what has been read from it, what has arrived behind that, and
whether the client has ended it. -/
structure Socket where
  taken : Bytes := []
  unread : Bytes := []
  ended : Bool := false

/-- Calls of the `Handler`. -/
inductive Callback where
  | onConnection (peer : Peer)
  | onInput (peer : Peer) (buffer : Bytes)
  | onDisconnection (peer : Peer)
  deriving DecidableEq

/-- Where the thread of the listener is. -/
inductive Listening where
  | poll
  /-- `handleNewPeer` has pushed the peer and waits for `toWriteLock`. -/
  | pushed (peer : Peer) (worker : Nat)
  | locked (peer : Peer) (worker : Nat)
  /-- It has read the file descriptor of the peer. -/
  | emplacing (worker : Nat) (fd : Fd)
  deriving DecidableEq

/-- Where the thread of a worker is. -/
inductive Doing where
  /-- It polls, or is between two entries. -/
  | poll
  | handlePeerQueue
  | onConnection (peer : Peer) (fd : Fd)
  /-- `recv` is next, on the file descriptor read when the loop began. -/
  | handleIncoming (peer : Peer) (fd : Fd)
  | onInput (peer : Peer) (fd : Fd)
  | onDisconnection (peer : Peer)
  deriving DecidableEq

/-- A call of the handler, or none, from which `flush` may settle a write. -/
def Doing.outside : Doing → Bool
  | .handlePeerQueue | .handleIncoming .. => false
  | _ => true

/-- How far the thread of a worker is with `removePeer`. -/
inductive Removing where
  | no
  | removePeer (peer : Peer)
  /-- `Transport::closeFd` waits for `toWriteLock`. -/
  | closeFd (peer : Peer) (fd : Fd)
  | locked (peer : Peer) (fd : Fd)
  deriving DecidableEq

/-- The transport whose lock the listener holds. -/
def Listening.lock : Listening → Option Nat
  | .locked _ worker | .emplacing worker _ => some worker
  | _ => none

/-- The worker holds the lock of its transport. -/
def Removing.lock : Removing → Bool
  | .locked .. => true
  | _ => false

/-- An entry of the `FdSet` given to `onReady`. -/
inductive Ready where
  | peersQueue
  | socket (fd : Fd)
  deriving DecidableEq

/-- The kernel's table of the connections, the listener, the peers, the transports by the number
of their worker with their pollers, and the calls of the handler.  A peer is the number of its
connection. -/
structure Server where
  conn : Fd → Option Peer := fun _ => none
  socket : Peer → Socket := fun _ => {}
  next : Peer := 0
  listener : Listening := .poll
  fd_ : Peer → Option Fd := fun _ => none
  transport_ : Peer → Option Nat := fun _ => none
  /-- `checkIdlePeers` has found the peer idle. -/
  idle : Peer → Bool := fun _ => false
  peersQueue : Nat → List Peer := fun _ => []
  peers_ : Nat → Fd → Option Peer := fun _ _ => none
  toWrite : Nat → Fd → Option (List WriteEntry) := fun _ _ => none
  toWriteLock : Nat → Bool := fun _ => false
  interest : Nat → Fd → Bool := fun _ _ => false
  pending : Nat → Fd → Bool := fun _ _ => false
  /-- The event of `peersQueue` is to be reported. -/
  queued : Nat → Bool := fun _ => false
  /-- What has been reported and not handled. -/
  fds : Nat → List Ready := fun _ => []
  doing : Nat → Doing := fun _ => .poll
  removing : Nat → Removing := fun _ => .no
  /-- An exception has left a thread, which ends the process. -/
  thrown : Bool := false
  calls : List Callback := []

/-- One entry of the table of one worker. -/
def put {α : Type} (table : Nat → Fd → α) (worker : Nat) (fd : Fd) (entry : α) : Nat → Fd → α :=
  Function.update table worker (Function.update (table worker) fd entry)

theorem put_apply {α : Type} (table : Nat → Fd → α) (worker : Nat) (fd : Fd) (entry : α)
    (worker' : Nat) (fd' : Fd) :
    put table worker fd entry worker' fd' =
      if worker' = worker ∧ fd' = fd then entry else table worker' fd' := by
  by_cases hworker : worker' = worker
  · subst hworker
    simp [put, Function.update_apply]
  · simp [put, hworker]

namespace Server

inductive Event where
  /-- The kernel gives this number to the next connection. -/
  | handleNewConnection (fd : Fd)
  /-- The thread of the listener goes on. -/
  | handleNewPeer
  /-- The client sends, ends its side of the connection, or breaks it off. -/
  | arrive (fd : Fd) (bytes : Bytes)
  | finish (fd : Fd)
  | reset (fd : Fd)
  | pollQueue (worker : Nat)
  | poll (worker : Nat) (fd : Fd)
  | onReady (worker : Nat)
  /-- `recv` returns at most so many bytes. -/
  | recv (worker : Nat) (length : Nat)
  /-- The thread of a worker goes on. -/
  | advance (worker : Nat)
  | checkIdlePeers (worker : Nat) (fd : Fd)
  /-- An idle peer is removed, at once or when its response has been written. -/
  | removePeer (peer : Peer)
  | handleWriteQueue (worker : Nat) (write : WriteEntry)
  /-- So many entries of the deque have been sent; for `none` it is erased after an error. -/
  | asyncWriteImpl (worker : Nat) (fd : Fd) (sent : Option Nat)

/-! ## The kernel -/

/-- The pollers that watch a socket have an event to report. -/
def signal (s : Server) (fd : Fd) : Nat → Fd → Bool :=
  fun worker fd' => s.pending worker fd' || (fd' == fd && s.interest worker fd)

/-- Something happens to the socket behind a file descriptor. -/
def happens (s : Server) (fd : Fd) (socket : Socket → Socket) : Server :=
  match s.conn fd with
  | none => s
  | some peer =>
    if (s.socket peer).ended then s
    else { s with
      socket := Function.update s.socket peer (socket (s.socket peer))
      pending := s.signal fd }

def readable (s : Server) (fd : Fd) : Bool :=
  match s.conn fd with
  | none => false
  | some peer => (s.socket peer).unread ≠ [] || (s.socket peer).ended

/-! ## The thread of the listener -/

/-- `acceptConnection`, `Peer::Create` and `dispatchPeer`, up to the push of `handleNewPeer`. -/
def handleNewConnection (handlers : Nat) (s : Server) (fd : Fd) : Server :=
  if s.listener = .poll ∧ s.conn fd = none then
    let idx := fd % handlers
    { s with
      conn := Function.update s.conn fd (some s.next)
      next := s.next + 1
      fd_ := Function.update s.fd_ s.next (some fd)
      peersQueue := Function.update s.peersQueue idx (s.peersQueue idx ++ [s.next])
      queued := Function.update s.queued idx true
      listener := .pushed s.next idx }
  else s

/-- `handleNewPeer` behind the push. -/
def handleNewPeer (s : Server) : Server :=
  match s.listener with
  | .poll => s
  | .pushed peer worker =>
    if s.toWriteLock worker then s
    else { s with
      toWriteLock := Function.update s.toWriteLock worker true
      listener := .locked peer worker }
  | .locked peer worker =>
    match s.fd_ peer with
    | none => { s with
        toWriteLock := Function.update s.toWriteLock worker false
        listener := .poll }
    | some fd => { s with listener := .emplacing worker fd }
  | .emplacing worker fd =>
    { s with
      toWrite := put s.toWrite worker fd (some ((s.toWrite worker fd).getD []))
      toWriteLock := Function.update s.toWriteLock worker false
      listener := .poll }

/-! ## The thread of a worker -/

def handlePeer (s : Server) (worker : Nat) (peer : Peer) : Server :=
  match s.fd_ peer with
  | none => s
  | some fd =>
    { s with
      peers_ := if s.peers_ worker fd = none then put s.peers_ worker fd (some peer) else s.peers_
      transport_ := Function.update s.transport_ peer (some worker)
      calls := s.calls ++ [.onConnection peer]
      doing := Function.update s.doing worker (.onConnection peer fd) }

/-- One pass of the loop of `handlePeerQueue`. -/
def handlePeerQueue (s : Server) (worker : Nat) : Server :=
  match s.peersQueue worker with
  | [] => { s with doing := Function.update s.doing worker .poll }
  | peer :: peers =>
    { s with peersQueue := Function.update s.peersQueue worker peers }.handlePeer worker peer

/-- `registerFd`, behind `onConnection`. -/
def registerFd (s : Server) (worker : Nat) (fd : Fd) : Server :=
  if s.interest worker fd then { s with thrown := true }
  else { s with
    interest := put s.interest worker fd true
    pending := put s.pending worker fd (s.readable fd)
    doing := Function.update s.doing worker .handlePeerQueue }

def handlePeerDisconnection (s : Server) (worker : Nat) (peer : Peer) : Server :=
  { s with
    calls := s.calls ++ [.onDisconnection peer]
    doing := Function.update s.doing worker (.onDisconnection peer) }

/-- One pass of the loop of `handleIncoming`; a `recv` on no connection is an `EBADF`. -/
def handleIncoming (s : Server) (worker : Nat) (peer : Peer) (fd : Fd) (length : Nat) : Server :=
  match s.conn fd with
  | none => s.handlePeerDisconnection worker peer
  | some owner =>
    let socket := s.socket owner
    if socket.unread = [] then
      if socket.ended then s.handlePeerDisconnection worker peer
      else { s with doing := Function.update s.doing worker .poll }
    else
      let bytes := max 1 (min length Const.MaxBuffer)
      { s with
        socket := Function.update s.socket owner { socket with
          taken := socket.taken ++ socket.unread.take bytes
          unread := socket.unread.drop bytes }
        calls := s.calls ++ [.onInput peer (socket.unread.take bytes)]
        doing := Function.update s.doing worker (.onInput peer fd) }

/-- One entry of the `FdSet`; a file descriptor that is no peer's is passed over. -/
def onReady (s : Server) (worker : Nat) : Server :=
  match s.fds worker with
  | [] => s
  | .peersQueue :: fds =>
    { s with
      fds := Function.update s.fds worker fds
      doing := Function.update s.doing worker .handlePeerQueue }
  | .socket fd :: fds =>
    match (s.peers_ worker fd).bind fun peer => (s.fd_ peer).map fun actual => (peer, actual) with
    | none => { s with fds := Function.update s.fds worker fds }
    | some (peer, fdactual) =>
      { s with
        fds := Function.update s.fds worker fds
        doing := Function.update s.doing worker (.handleIncoming peer fdactual) }

/-- `removePeer` with `Peer::closeFd`, up to the lock of `Transport::closeFd`. -/
def removePeer (s : Server) (worker : Nat) (peer : Peer) : Server :=
  match s.fd_ peer with
  | none => { s with removing := Function.update s.removing worker .no }
  | some fd =>
    if s.interest worker fd then
      { s with
        peers_ := put s.peers_ worker fd none
        interest := put s.interest worker fd false
        pending := put s.pending worker fd false
        fd_ := Function.update s.fd_ peer none
        removing := Function.update s.removing worker (.closeFd peer fd) }
    else { s with thrown := true }

def advance (s : Server) (worker : Nat) : Server :=
  match s.removing worker with
  | .removePeer peer => s.removePeer worker peer
  | .closeFd peer fd =>
    if s.toWriteLock worker then s
    else { s with
      toWriteLock := Function.update s.toWriteLock worker true
      removing := Function.update s.removing worker (.locked peer fd) }
  | .locked _ fd =>
    { s with
      toWrite := put s.toWrite worker fd none
      conn := Function.update s.conn fd none
      toWriteLock := Function.update s.toWriteLock worker false
      removing := Function.update s.removing worker .no }
  | .no =>
    match s.doing worker with
    | .poll | .handleIncoming .. => s
    | .handlePeerQueue => s.handlePeerQueue worker
    | .onConnection _ fd => s.registerFd worker fd
    | .onInput peer fd => { s with doing := Function.update s.doing worker (.handleIncoming peer fd) }
    | .onDisconnection peer =>
      { s with
        doing := Function.update s.doing worker .poll
        removing := Function.update s.removing worker (.removePeer peer) }

/-- One entry of `writesQueue`. -/
def handleWriteQueue (s : Server) (worker : Nat) (write : WriteEntry) : Server :=
  match write.peerFd with
  | none => s
  | some fd =>
    if s.peers_ worker fd = none then s
    else { s with
      toWrite := put s.toWrite worker fd (some ((s.toWrite worker fd).getD [] ++ [write])) }

def asyncWriteImpl (s : Server) (worker : Nat) (fd : Fd) (sent : Option Nat) : Server :=
  match s.toWrite worker fd with
  | none | some [] => s
  | some wq =>
    match sent.map wq.drop with
    | none | some [] => { s with toWrite := put s.toWrite worker fd none }
    | some rest => { s with toWrite := put s.toWrite worker fd (some rest) }

/-- The thread of a worker is not inside `removePeer`, and polls. -/
def polls (s : Server) (worker : Nat) : Bool :=
  s.removing worker = .no && s.doing worker = .poll

/-- The thread of a worker is not inside `removePeer`, and polls or is in a call of the handler. -/
def outside (s : Server) (worker : Nat) : Bool :=
  s.removing worker = .no && (s.doing worker).outside

/-- What cannot happen in a state changes nothing, and nothing happens in a process that has
ended. -/
def step (handlers : Nat) (s : Server) (event : Event) : Server :=
  if s.thrown then s
  else match event with
  | .handleNewConnection fd => s.handleNewConnection handlers fd
  | .handleNewPeer => s.handleNewPeer
  | .arrive fd bytes => s.happens fd fun socket => { socket with unread := socket.unread ++ bytes }
  | .finish fd => s.happens fd fun socket => { socket with ended := true }
  | .reset fd => s.happens fd fun socket => { socket with unread := [], ended := true }
  | .pollQueue worker =>
    if s.polls worker && s.queued worker then
      { s with
        queued := Function.update s.queued worker false
        fds := Function.update s.fds worker (s.fds worker ++ [.peersQueue]) }
    else s
  | .poll worker fd =>
    if s.polls worker && s.pending worker fd then
      { s with
        pending := put s.pending worker fd false
        fds := Function.update s.fds worker (s.fds worker ++ [.socket fd]) }
    else s
  | .onReady worker => if s.polls worker then s.onReady worker else s
  | .recv worker length =>
    match s.removing worker, s.doing worker with
    | .no, .handleIncoming peer fd => s.handleIncoming worker peer fd length
    | _, _ => s
  | .advance worker => s.advance worker
  | .checkIdlePeers worker fd =>
    if s.polls worker then
      match s.peers_ worker fd with
      | none => s
      | some peer => { s with idle := Function.update s.idle peer true }
    else s
  | .removePeer peer =>
    match s.transport_ peer with
    | none => s
    | some worker =>
      if s.outside worker && s.idle peer then
        { s with removing := Function.update s.removing worker (.removePeer peer) }
      else s
  | .handleWriteQueue worker write =>
    if s.outside worker && !s.toWriteLock worker then s.handleWriteQueue worker write else s
  | .asyncWriteImpl worker fd sent =>
    if s.outside worker && !s.toWriteLock worker then s.asyncWriteImpl worker fd sent else s

def run (handlers : Nat) : Server → List Event → Server := Machine.run (step handlers)

end Server

end Pistache.Tcp
