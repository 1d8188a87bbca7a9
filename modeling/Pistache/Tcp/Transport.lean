import Mathlib.Logic.Function.Basic
import Pistache.Common.Bytes

/-!
# The write side of the transport

`Transport` with its queues of writes and its peers, as a machine.  The calls of
`asyncWriteImpl` to the socket, and the points between two entries at which its lock is free,
are states of the machine, so that what other threads and the kernel do may come in between.

A promise is the number of its call of `asyncWrite`; the flags of a write, the reactor's
interest in a file descriptor and TLS are left out.  A regular file is its content.
-/

set_option autoImplicit false

namespace Pistache.Tcp

abbrev Fd := Nat

/-! ## Buffers -/

structure RawBuffer where
  data_ : Bytes
  length_ : Nat
  length_le : length_ ≤ data_.length

namespace RawBuffer

def bytes (buffer : RawBuffer) : Bytes := buffer.data_.take buffer.length_

/-- `none` stands for the `range_error`. -/
def copy (buffer : RawBuffer) (fromIndex : Nat) : Option RawBuffer :=
  if buffer.data_ = [] then some ⟨[], 0, Nat.le_refl 0⟩
  else if buffer.length_ < fromIndex then none
  else
    let newDatalength := buffer.length_ - fromIndex
    some ⟨(buffer.data_.drop fromIndex).take newDatalength, newDatalength, by
      have := buffer.length_le
      simp only [List.length_take, List.length_drop]
      omega⟩

@[simp] theorem bytes_length (buffer : RawBuffer) : buffer.bytes.length = buffer.length_ := by
  rw [bytes, List.length_take]
  exact Nat.min_eq_left buffer.length_le

/-- The copy of the rest of a buffer. -/
theorem copy_eq {buffer : RawBuffer} {fromIndex : Nat} (h : fromIndex ≤ buffer.length_) :
    ∃ rest, buffer.copy fromIndex = some rest ∧ rest.bytes = buffer.bytes.drop fromIndex := by
  unfold copy
  by_cases hnil : buffer.data_ = []
  · rw [if_pos hnil]
    exact ⟨_, rfl, by simp [bytes, hnil]⟩
  · rw [if_neg hnil, if_neg (by omega)]
    refine ⟨_, rfl, ?_⟩
    simp only [bytes, List.take_take, Nat.min_self, List.drop_take]

end RawBuffer

/-- What is given to `asyncWrite`. -/
inductive Buffer where
  | raw (buffer : RawBuffer)
  | file (content : Bytes)

def Buffer.bytes : Buffer → Bytes
  | .raw buffer => buffer.bytes
  | .file content => content

/-- A buffer and the offset from which it is still to be sent. -/
inductive BufferHolder where
  | raw (buffer : RawBuffer) (offset : Nat)
  | file (content : Bytes) (offset : Nat)

namespace BufferHolder

def ofBuffer : Buffer → BufferHolder
  | .raw buffer => raw buffer 0
  | .file content => file content 0

def bytes : BufferHolder → Bytes
  | raw buffer _ => buffer.bytes
  | file content _ => content

def size : BufferHolder → Nat
  | raw buffer _ => buffer.length_
  | file content _ => content.length

def offset : BufferHolder → Nat
  | raw _ offset => offset
  | file _ offset => offset

/-- The rest of a raw buffer is cut out, that of a file is marked by its offset. -/
def detach (offset : Nat) : BufferHolder → Option BufferHolder
  | raw buffer _ => (buffer.copy offset).map (raw · 0)
  | file content _ => some (file content offset)

/-- The bytes that are still to be sent. -/
def rest (buffer : BufferHolder) : Bytes := buffer.bytes.drop buffer.offset

@[simp] theorem bytes_length (buffer : BufferHolder) : buffer.bytes.length = buffer.size := by
  cases buffer <;> simp [bytes, size]

@[simp] theorem ofBuffer_rest (buffer : Buffer) : (ofBuffer buffer).rest = buffer.bytes := by
  cases buffer <;> rfl

@[simp] theorem ofBuffer_offset (buffer : Buffer) : (ofBuffer buffer).offset = 0 := by
  cases buffer <;> rfl

/-- What has been detached is what has not been written. -/
theorem detach_eq {buffer : BufferHolder} {n : Nat} (h : n ≤ buffer.size) :
    ∃ buffer', buffer.detach n = some buffer' ∧ buffer'.rest = buffer.bytes.drop n ∧
      buffer'.offset ≤ buffer'.size := by
  cases buffer with
  | raw buffer offset =>
    obtain ⟨copy, hcopy, hbytes⟩ := RawBuffer.copy_eq h
    refine ⟨raw copy 0, by simp [detach, hcopy], ?_, Nat.zero_le _⟩
    simpa [rest, bytes, BufferHolder.offset] using hbytes
  | file content offset => exact ⟨file content n, rfl, rfl, h⟩

end BufferHolder

/-! ## The transport -/

/-- A write that is queued; no `peerFd` is the empty one. -/
structure WriteEntry where
  deferred : Nat
  buffer : BufferHolder
  peerFd : Option Fd

/-- Where `asyncWriteImpl` stands: it is not running, it is at the top of its outer loop, where
its lock is free, or in its inner loop, having written so much of the front entry. -/
inductive Running where
  | no
  | top (fd : Fd)
  | inner (fd : Fd) (totalWritten : Nat)
  deriving DecidableEq

/-- A peer is its number. -/
abbrev Peer := Nat

structure Transport where
  writesQueue : List WriteEntry := []
  toWrite : Fd → List WriteEntry := fun _ => []
  peers_ : Fd → Option Peer := fun _ => none
  running : Running := .no

/-- What the socket answers: the number of bytes taken, or the error. -/
inductive Answer where
  | wrote (bytes : Nat)
  /-- `EAGAIN`, `EWOULDBLOCK` -/
  | again
  /-- `EBADF`, `EPIPE`, `ECONNRESET` -/
  | gone
  /-- any other error -/
  | failed
  deriving DecidableEq

namespace Transport

def asyncWrite (t : Transport) (write : WriteEntry) : Transport :=
  { t with writesQueue := t.writesQueue ++ [write] }

/-- A call of `asyncWriteImpl` begins. -/
def asyncWriteImpl (t : Transport) (fd : Fd) : Transport := { t with running := .top fd }

/-- One pass of the loop of `handleWriteQueue`. -/
def handleWriteQueue (t : Transport) (flush : Bool) : Transport :=
  match t.writesQueue with
  | [] => t
  | write :: writesQueue =>
    let t := { t with writesQueue }
    match write.peerFd with
    | none => t
    | some fd =>
      if t.peers_ fd = none then t
      else
        let t := { t with toWrite := Function.update t.toWrite fd (t.toWrite fd ++ [write]) }
        if flush then t.asyncWriteImpl fd else t

/-- The top of the outer loop of `asyncWriteImpl`. -/
def loop (t : Transport) (fd : Fd) : Transport :=
  match t.toWrite fd with
  | [] => { t with running := .no }
  | entry :: _ => { t with running := .inner fd entry.buffer.offset }

/-- `cleanUp`: the front entry is taken from the queue, and an empty queue ends the loop. -/
def cleanUp (t : Transport) (fd : Fd) (wq : List WriteEntry) : Transport :=
  { t with
    toWrite := Function.update t.toWrite fd wq
    running := if wq = [] then .no else .top fd }

/-- One pass of the inner loop of `asyncWriteImpl`, and the bytes that it hands to the
socket. -/
def send (t : Transport) (fd : Fd) (totalWritten : Nat) (answer : Answer) : Bytes × Transport :=
  match t.toWrite fd with
  | [] => ([], { t with running := .no })
  | entry :: wq =>
    match answer with
    | .wrote n =>
      let bytesWritten := min n (entry.buffer.size - totalWritten)
      let bytes := (entry.buffer.bytes.drop totalWritten).take bytesWritten
      let totalWritten := totalWritten + bytesWritten
      if totalWritten ≥ entry.buffer.size then (bytes, t.cleanUp fd wq)
      else (bytes, { t with running := .inner fd totalWritten })
    | .again =>
      match entry.buffer.detach totalWritten with
      | none => ([], { t with running := .no })
      | some buffer =>
        ([], { t with
          toWrite := Function.update t.toWrite fd (⟨entry.deferred, buffer, some fd⟩ :: wq)
          running := .no })
    | .gone => ([], { t with toWrite := Function.update t.toWrite fd [], running := .no })
    | .failed => ([], t.cleanUp fd wq)

/-- A peer that is there already stays. -/
def handlePeer (t : Transport) (peer : Peer) (fd : Fd) : Transport :=
  if t.peers_ fd = none then { t with peers_ := Function.update t.peers_ fd (some peer) } else t

/-- `removePeer` up to the call of `closeFd`. -/
def removePeer (t : Transport) (fd : Fd) : Transport :=
  { t with peers_ := Function.update t.peers_ fd none }

def closeFd (t : Transport) (fd : Fd) : Transport :=
  { t with toWrite := Function.update t.toWrite fd [] }

end Transport

namespace Transport

variable {t : Transport}

/-- What a pass of `handleWriteQueue` can do: nothing, drop a write for a file descriptor that is
not that of a peer, or move one to the deque of its file descriptor. -/
theorem handleWriteQueue_cases (t : Transport) (flush : Bool) :
    (t.writesQueue = [] ∧ t.handleWriteQueue flush = t) ∨
    ∃ write writesQueue, t.writesQueue = write :: writesQueue ∧
      (((∀ fd, write.peerFd = some fd → t.peers_ fd = none) ∧
          t.handleWriteQueue flush = { t with writesQueue }) ∨
        ∃ fd, write.peerFd = some fd ∧ t.peers_ fd ≠ none ∧
          t.handleWriteQueue flush =
            { t with
              writesQueue
              toWrite := Function.update t.toWrite fd (t.toWrite fd ++ [write])
              running := if flush then .top fd else t.running }) := by
  unfold handleWriteQueue
  cases hqueue : t.writesQueue with
  | nil => exact .inl ⟨rfl, rfl⟩
  | cons write writesQueue =>
    refine .inr ⟨write, writesQueue, rfl, ?_⟩
    obtain ⟨deferred, buffer, _ | fd⟩ := write
    · exact .inl ⟨fun _ h => (nomatch h), rfl⟩
    · dsimp only
      by_cases hp : t.peers_ fd = none
      · rw [if_pos hp]
        exact .inl ⟨by rintro _ ⟨⟩; exact hp, rfl⟩
      · rw [if_neg hp]
        refine .inr ⟨fd, rfl, hp, ?_⟩
        cases flush <;> rfl

/-- What an answer of a socket leaves alone. -/
theorem send_frame (fd : Fd) (n : Nat) (answer : Answer) :
    (t.send fd n answer).2.writesQueue = t.writesQueue ∧
      (t.send fd n answer).2.peers_ = t.peers_ := by
  unfold send
  split
  · exact ⟨rfl, rfl⟩
  · cases answer with
    | wrote bytes =>
      dsimp only
      split <;> exact ⟨rfl, rfl⟩
    | again =>
      dsimp only
      split <;> exact ⟨rfl, rfl⟩
    | gone => exact ⟨rfl, rfl⟩
    | failed => exact ⟨rfl, rfl⟩

/-- A `cleanUp` leaves the inner loop. -/
theorem running_cleanUp (t : Transport) (fd : Fd) (wq : List WriteEntry) :
    ∀ fd' n, (t.cleanUp fd wq).running ≠ .inner fd' n := by
  intro fd' n
  unfold cleanUp
  dsimp only
  split <;> exact Running.noConfusion

/-- An answer to another socket. -/
theorem send_other {fd fd' : Fd} (hne : fd' ≠ fd) (n : Nat) (answer : Answer) :
    (t.send fd' n answer).2.toWrite fd = t.toWrite fd ∧
      ∀ m, (t.send fd' n answer).2.running ≠ .inner fd m := by
  have hclean : ∀ wq, (t.cleanUp fd' wq).toWrite fd = t.toWrite fd ∧
      ∀ m, (t.cleanUp fd' wq).running ≠ .inner fd m := fun wq =>
    ⟨Function.update_of_ne hne.symm _ _, t.running_cleanUp fd' wq fd⟩
  unfold send
  split
  · exact ⟨rfl, fun m => Running.noConfusion⟩
  · cases answer with
    | wrote bytes =>
      dsimp only
      split
      · exact hclean _
      · refine ⟨rfl, fun m h => ?_⟩
        injection h with h
        exact hne h
    | again =>
      dsimp only
      split
      · exact ⟨rfl, fun m => Running.noConfusion⟩
      · exact ⟨Function.update_of_ne hne.symm _ _, fun m => Running.noConfusion⟩
    | gone => exact ⟨Function.update_of_ne hne.symm _ _, fun m => Running.noConfusion⟩
    | failed => exact hclean _

end Transport

/-! ## The transport among threads, peers and the kernel -/

/-- What happens.  `handlePeer` and `closeFd` are those of the peer that the file descriptor
belongs to. -/
inductive Event where
  | accept (fd : Fd)
  | handlePeer (fd : Fd)
  | asyncWrite (fd : Option Fd) (buffer : Buffer)
  | handleWriteQueue (flush : Bool)
  | writable (fd : Fd)
  | loop
  | answer (answer : Answer)
  | removePeer (fd : Fd)
  | closeFd (fd : Fd)

/-- A call of `asyncWrite`, and the peer to which the file descriptor belonged then. -/
structure Call where
  fd : Option Fd
  buffer : Buffer
  owner : Option Peer

/-- Bytes handed to the socket: the promise of the entry they are from, and the peer to which
the file descriptor belongs. -/
structure Sent where
  fd : Fd
  deferred : Nat
  owner : Option Peer
  bytes : Bytes

/-- The transport, the peers that the kernel's file descriptors belong to, and what has been
enqueued and sent. -/
structure System where
  transport : Transport := {}
  owner : Fd → Option Peer := fun _ => none
  accepted : Nat := 0
  calls : List Call := []
  sent : List Sent := []

namespace System

/-- The socket's answer; that of a closed one is `EBADF`. -/
def answerOf (s : System) (fd : Fd) (answer : Answer) : Answer :=
  if s.owner fd = none then .gone else answer

/-- The entry that is being sent. -/
def frontDeferred (s : System) (fd : Fd) : Nat :=
  match s.transport.toWrite fd with
  | [] => 0
  | entry :: _ => entry.deferred

/-- What cannot happen in a state changes nothing: an `accept` of a file descriptor that is
open, a second call on the reactor's thread while `asyncWriteImpl` runs, and a `closeFd` while
it holds its lock. -/
def step (s : System) : Event → System
  | .accept fd =>
    if s.owner fd = none then
      { s with owner := Function.update s.owner fd (some s.accepted), accepted := s.accepted + 1 }
    else s
  | .handlePeer fd =>
    match s.owner fd with
    | none => s
    | some peer => { s with transport := s.transport.handlePeer peer fd }
  | .asyncWrite fd buffer =>
    { s with
      transport := s.transport.asyncWrite ⟨s.calls.length, .ofBuffer buffer, fd⟩
      calls := s.calls ++ [⟨fd, buffer, fd.bind s.owner⟩] }
  | .handleWriteQueue flush =>
    if s.transport.running = .no then
      { s with transport := s.transport.handleWriteQueue flush }
    else s
  | .writable fd =>
    if s.transport.running = .no then { s with transport := s.transport.asyncWriteImpl fd } else s
  | .loop =>
    match s.transport.running with
    | .top fd => { s with transport := s.transport.loop fd }
    | _ => s
  | .answer answer =>
    match s.transport.running with
    | .inner fd totalWritten =>
      let (bytes, transport) := s.transport.send fd totalWritten (s.answerOf fd answer)
      { s with
        transport
        sent := s.sent ++ [⟨fd, s.frontDeferred fd, s.owner fd, bytes⟩] }
    | _ => s
  | .removePeer fd => { s with transport := s.transport.removePeer fd }
  | .closeFd fd =>
    match s.transport.running with
    | .inner .. => s
    | _ =>
      { s with
        transport := s.transport.closeFd fd
        owner := Function.update s.owner fd none }

def run : System → List Event → System
  | s, [] => s
  | s, event :: events => run (s.step event) events

end System

end Pistache.Tcp
