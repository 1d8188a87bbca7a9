import Mathlib.Algebra.Group.Nat.Defs
import Mathlib.Logic.Function.Basic
import Pistache.Lib.Machine

/-!
# The queue behind an event descriptor

`PollableQueue`, bound to a poller, with any number of producers and one consumer, which pops
until it gets null whenever the descriptor is readable.  A step is one access to memory or one
system call, in one order for all threads.

* `PollableQueue.step` — the code.
* `System.step` — the code beside what has been pushed and popped.
-/

set_option autoImplicit false

namespace Pistache.Mailbox

namespace Pollable

/-- Where a producer is in `push`. -/
inductive Producer (T : Type) where
  | idle
  /-- before `head.exchange` -/
  | exchange (entry : Nat) (data : T)
  /-- before `prev->next = entry` -/
  | link (prev entry : Nat)
  /-- before `WRITE_EFD` -/
  | write
  deriving DecidableEq

/-- Where the consumer is. -/
inductive Consumer where
  /-- waits for the descriptor -/
  | parked
  /-- before the first `Queue<T>::pop` -/
  | pop
  /-- before `READ_EFD` -/
  | read (ret : Option Nat)
  /-- before the second `Queue<T>::pop` -/
  | again
  /-- an entry has been returned, which `popSafe` empties and deletes -/
  | take (entry : Nat)
  deriving DecidableEq, Repr

/-- `PollableQueue<T>::pop` returns; on null the loop of the consumer ends. -/
def Consumer.returned : Option Nat → Consumer
  | some entry => take entry
  | none => parked

/-- The entry that the consumer holds. -/
def Consumer.entry : Consumer → Option Nat
  | read ret => ret
  | take entry => some entry
  | _ => none

/-- The producer has made its exchange, and has yet to write. -/
def Producer.YetToWrite {T : Type} (p : Producer T) : Prop :=
  p = .write ∨ ∃ prev entry, p = .link prev entry

/-- Entries are at addresses; `storage` is empty where no `T` has been constructed. -/
structure PollableQueue (T : Type) where
  live : Nat → Bool
  next : Nat → Option Nat
  storage : Nat → Option T
  head : Nat
  tail : Nat
  eventFd : Nat
  producers : Nat → Producer T
  consumer : Consumer

/-- The constructor: a sentinel. -/
def PollableQueue.init (T : Type) : PollableQueue T where
  live address := address = 0
  next _ := none
  storage _ := none
  head := 0
  tail := 0
  eventFd := 0
  producers _ := .idle
  consumer := .parked

inductive Event (T : Type) where
  /-- a producer calls `push`, and `new` gives an address -/
  | push (producer : Nat) (data : T) (address : Nat)
  | produce (producer : Nat)
  /-- the thread of the consumer pops without waiting -/
  | flush
  | consume

/-- The count at which a write to an event descriptor blocks. -/
def maxCount : Nat := 2 ^ 64 - 2

namespace PollableQueue

variable {T : Type} (q : PollableQueue T)

def setProducer (i : Nat) (producer : Producer T) : PollableQueue T :=
  { q with producers := Function.update q.producers i producer }

/-- `new Entry(data)`, where nothing lives. -/
def push (i : Nat) (data : T) (address : Nat) : PollableQueue T :=
  match q.producers i, q.live address with
  | .idle, false =>
    { q with
      live := Function.update q.live address true
      next := Function.update q.next address none
      storage := Function.update q.storage address (some data) }.setProducer i
        (.exchange address data)
  | _, _ => q

/-- The next step of a producer.  A write at the largest count fails, and `TRY` throws. -/
def produce (i : Nat) : PollableQueue T :=
  match q.producers i with
  | .idle => q
  | .exchange entry _ => { q with head := entry }.setProducer i (.link q.head entry)
  | .link prev entry =>
    { q with next := Function.update q.next prev (some entry) }.setProducer i .write
  | .write =>
    { q with eventFd := if q.eventFd < maxCount then q.eventFd + 1 else q.eventFd }.setProducer i
      .idle

/-- `Queue<T>::pop`: the old tail takes the value of the new one, and is returned. -/
def popEntry : Option Nat × PollableQueue T :=
  match q.next q.tail with
  | some next =>
    (some q.tail,
      { q with
        tail := next
        storage := Function.update (Function.update q.storage q.tail (q.storage next)) next none })
  | none => (none, q)

/-- The next step of the consumer. -/
def consume : PollableQueue T :=
  match q.consumer with
  | .parked => if 0 < q.eventFd then { q with consumer := .pop } else q
  | .pop => { q.popEntry.2 with consumer := .read q.popEntry.1 }
  | .read ret =>
    if 0 < q.eventFd then
      { q with eventFd := 0, consumer := if ret = none then .again else .returned ret }
    else { q with consumer := .returned ret }
  | .again => { q.popEntry.2 with consumer := .returned q.popEntry.1 }
  | .take entry =>
    { q with
      live := Function.update q.live entry false
      storage := Function.update q.storage entry none
      consumer := .pop }

def step : Event T → PollableQueue T
  | .push i data address => q.push i data address
  | .produce i => q.produce i
  | .flush => if q.consumer = .parked then { q with consumer := .pop } else q
  | .consume => q.consume

end PollableQueue

/-! ## The history -/

/-- The queue with what has been pushed, in the order of the exchanges, and popped. -/
structure System (T : Type) where
  queue : PollableQueue T
  exchanged : List T
  popped : List T

namespace System

variable {T : Type} (s : System T)

def init (T : Type) : System T := ⟨.init T, [], []⟩

/-- What a step pushes. -/
def pushes : Event T → List T
  | .produce i =>
    match s.queue.producers i with
    | .exchange _ data => [data]
    | _ => []
  | _ => []

/-- What a step pops: the value in the entry that `popSafe` empties. -/
def pops : Event T → List T
  | .consume =>
    match s.queue.consumer with
    | .take entry => (s.queue.storage entry).toList
    | _ => []
  | _ => []

def step (event : Event T) : System T :=
  ⟨s.queue.step event, s.exchanged ++ s.pushes event, s.popped ++ s.pops event⟩

def run (events : List (Event T)) : System T := Machine.run System.step s events

end System

end Pollable

end Pistache.Mailbox
