import Mathlib.Logic.Function.Basic
import Pistache.Lib.Machine

/-!
# The timeout of a response

`Http::Timeout` and the timers of `Tcp::Transport` on the transport's own thread: arming, moving,
disarming, sending and destroying `Timeout`s, and the timer events.  The continuation of an armed
timer holds the address of the `Timeout` that armed it.

* `State.step` — the operations, with what each comes to.
* `State.Meets` — the condition under which they keep to the timeout's contract, `State.Behaves`.
-/

set_option autoImplicit false

namespace Pistache.Http.ResponseTimeout

variable {O : Type} [DecidableEq O]

/-- `Http::Timeout`; `none` is `PS_FD_EMPTY`. -/
structure Timeout where
  armed : Bool := false
  timerFd : Option Nat := none
  deriving DecidableEq, Repr

/-- `Transport::TimerEntry`.  `this` is what the continuation of its `deferred` has captured, and
`arm` numbers the call of `arm`. -/
structure TimerEntry (O : Type) where
  active : Bool := true
  this : O
  arm : Nat

/-- A call of `arm` that has started its timer: the `Timeout` it belongs to now, when its duration
has elapsed, whether it has been disarmed since, and whether `onTimeout` has run for it. -/
structure Arm (O : Type) where
  holder : O
  due : Int
  disarmed : Bool := false
  fired : Bool := false

/-- Times are nanoseconds.  `timerfds` are the open timer descriptors, each with the time at which
it expires, and `running` is the timer whose continuation has called `onTimeout`. -/
structure State (O : Type) where
  now : Int := 0
  timeouts : O → Option Timeout := fun _ => none
  timers : Nat → Option (TimerEntry O) := fun _ => none
  timerfds : Nat → Option (Option Int) := fun _ => none
  running : Option (Nat × O) := none
  arms : Nat → Option (Arm O) := fun _ => none
  next : Nat := 0

inductive Outcome where
  | returned
  | rejected
  | thrown (what : String)
  /-- a destructor throws -/
  | terminates
  /-- `onTimeout` runs for this call of `arm` -/
  | onTimeout (arm : Nat)
  /-- the continuation uses a `Timeout` that is gone -/
  | dangling
  deriving DecidableEq, Repr

inductive Event (O : Type) where
  | construct (o : O)
  /-- `duration` in nanoseconds, `fd` what `timerfd_create` returns -/
  | arm (o : O) (duration : Int) (fd : Option Nat)
  /-- move construction, or move assignment to a `Timeout` that is there -/
  | move (other this : O)
  | disarm (o : O)
  /-- `ResponseWriter::send`, `fits` that the response fits into the buffer -/
  | send (o : O) (fits : Bool)
  | destroy (o : O)
  /-- a readable event for the descriptor -/
  | ready (fd : Nat)
  /-- `onTimeout` returns -/
  | finish
  | elapse (time : Nat)

/-- The milliseconds that `armTimer` makes of a duration. -/
def millis (duration : Int) : Int := duration.tdiv 1000000

/-- The nanoseconds that `armTimerMsImpl` sets. -/
def itimerspec (value : Int) : Int :=
  if value < 1000 then value * 1000000 else value / 1000 * 1000000000

/-- When a timer set at `now` expires.  `timerfd_settime` refuses a negative time, and with zero
the timer does not run. -/
def settime (now value : Int) : Option (Option Int) :=
  if value < 0 then none
  else if itimerspec value = 0 then some none
  else some (some (now + itimerspec value))

namespace State

/-- `Timeout::arm` with a descriptor from `timerfd_create`, and `armTimerMsImpl`.  A rejection of
the promise is thrown again as soon as `then` attaches the continuation. -/
def arm (s : State O) (o : O) (t : Timeout) (duration : Int) (fd : Nat) : State O × Outcome :=
  let s := { s with
    timerfds := Function.update s.timerfds fd (some none)
    timeouts := Function.update s.timeouts o (some { t with timerFd := some fd }) }
  if (s.timers fd).isSome then (s, .thrown "Timer is already armed")
  else match settime s.now (millis duration) with
    | none => (s, .thrown "Could not set timer time")
    | some expiry =>
      ({ s with
        timerfds := Function.update s.timerfds fd (some expiry)
        timers := Function.update s.timers fd (some { this := o, arm := s.next })
        timeouts := Function.update s.timeouts o (some { armed := true, timerFd := some fd })
        arms := Function.update s.arms s.next (some { holder := o, due := s.now + duration })
        next := s.next + 1 }, .returned)

/-- Both moves of `Timeout`: the source keeps `armed`. -/
def move (s : State O) (other this : O) (t : Timeout) : State O :=
  { s with
    timeouts := Function.update (Function.update s.timeouts this (some t)) other
      (some { t with timerFd := none })
    arms := fun a => (s.arms a).map fun r =>
      if r.holder = other then { r with holder := this } else r }

/-- The entry that `disarmTimer` finds. -/
def timerEntry (s : State O) (t : Timeout) : Option (Nat × TimerEntry O) :=
  t.timerFd.bind fun fd => (s.timers fd).map fun e => (fd, e)

/-- `Timeout::disarm`. -/
def disarm (s : State O) (o : O) (t : Timeout) : State O × Outcome :=
  let arms a := (s.arms a).map fun r => if r.holder = o then { r with disarmed := true } else r
  if t.armed then
    match s.timerEntry t with
    | none => (s, .thrown "Timer has not been armed")
    | some (fd, e) =>
      ({ s with
        timers := Function.update s.timers fd (some { e with active := false })
        arms }, .returned)
  else ({ s with arms }, .returned)

/-- `Transport::handleTimer` up to the call of `onTimeout`, and the erasure of an entry that does
not get there. -/
def handleTimer (s : State O) (fd : Nat) (e : TimerEntry O) : State O × Outcome :=
  let erased := { s with timers := Function.update s.timers fd none }
  if e.active then
    match s.timerfds fd with
    | none => (s, .thrown "Could not read timerfd")
    | some expiry =>
      if expiry.any (· ≤ s.now) then
        let fired := { s with
          timerfds := Function.update s.timerfds fd (some none)
          arms := Function.update s.arms e.arm
            ((s.arms e.arm).map fun r => { r with fired := true })
          running := some (fd, e.this) }
        match s.timeouts e.this with
        | none => (fired, .dangling)
        | some t =>
          ({ fired with
            timeouts := Function.update s.timeouts e.this (some { t with armed := false }) },
            .onTimeout e.arm)
      else (erased, .returned)
  else (erased, .returned)

/-- The end of the continuation: `CLOSE_FD`, and the erasure of the entry. -/
def finish (s : State O) (fd : Nat) (o : O) : State O × Outcome :=
  let erased := { s with timers := Function.update s.timers fd none, running := none }
  match s.timeouts o with
  | none => (erased, .dangling)
  | some t =>
    ({ erased with
      timerfds := match t.timerFd with
        | none => s.timerfds
        | some open_fd => Function.update s.timerfds open_fd none
      timeouts := Function.update s.timeouts o (some { t with timerFd := none }) }, .returned)

/-- What an event does.  An operation on a `Timeout` that is not there is none, and neither is a
descriptor from `timerfd_create` that is open already. -/
def result (s : State O) : Event O → State O × Outcome
  | .construct o =>
    (if (s.timeouts o).isSome then s
      else { s with timeouts := Function.update s.timeouts o (some {}) }, .returned)
  | .arm o duration fd =>
    match s.timeouts o, fd with
    | none, _ => (s, .returned)
    | some _, none => (s, .thrown "timerfd_create")
    | some t, some fd =>
      if (s.timerfds fd).isSome then (s, .returned) else s.arm o t duration fd
  | .move other this =>
    match s.timeouts other with
    | none => (s, .returned)
    | some t => (s.move other this t, .returned)
  | .disarm o =>
    match s.timeouts o with
    | none => (s, .returned)
    | some t => s.disarm o t
  | .send o fits =>
    match s.timeouts o with
    | none => (s, .returned)
    | some t =>
      if fits then
        match s.disarm o t with
        | (s, .thrown _) => (s, .rejected)
        | done => done
      else (s, .rejected)
  | .destroy o =>
    match s.timeouts o with
    | none => (s, .returned)
    | some t =>
      match s.disarm o t with
      | (s, .thrown _) => (s, .terminates)
      | (s, _) => ({ s with timeouts := Function.update s.timeouts o none }, .returned)
  | .ready fd =>
    match s.running, s.timers fd with
    | none, some e => s.handleTimer fd e
    | _, _ => (s, .returned)
  | .finish =>
    match s.running with
    | none => (s, .returned)
    | some (fd, o) => s.finish fd o
  | .elapse time => ({ s with now := s.now + time }, .returned)

def step (s : State O) (event : Event O) : State O := (s.result event).1

def start : State O := {}

/-! ## The contract and the condition -/

/-- The call of `arm` may time out: it has not, it has not been disarmed, and its duration has
elapsed. -/
def MayFire (s : State O) (a : Nat) : Prop :=
  ∃ r, s.arms a = some r ∧ ¬r.fired ∧ ¬r.disarmed ∧ r.due ≤ s.now

/-- What an operation may come to. -/
def Allowed (s : State O) : Outcome → Prop
  | .returned | .rejected => True
  | .thrown _ | .terminates | .dangling => False
  | .onTimeout a => s.MayFire a

def Behaves (s : State O) (event : Event O) : Prop := s.Allowed (s.result event).2

/-- The timer that the `Timeout` has armed last may still go off. -/
def Pending (s : State O) (t : Timeout) : Prop :=
  t.armed ∧ ∃ p ∈ s.timerEntry t, p.2.active

/-- `Timeout::disarm` finds the timer. -/
def Disarmable (s : State O) (t : Timeout) : Prop := t.armed → (s.timerEntry t).isSome

/-- A timer with this duration does not expire early. -/
def Kept (duration : Int) : Prop :=
  0 ≤ millis duration ∧
    (itimerspec (millis duration) = 0 ∨ duration ≤ itimerspec (millis duration))

/-- The `Timeout` whose continuation runs. -/
def Running (s : State O) (o : O) : Prop := ∃ p ∈ s.running, p.2 = o

instance (s : State O) (t : Timeout) : Decidable (s.Pending t) :=
  inferInstanceAs (Decidable (_ ∧ ∃ p ∈ s.timerEntry t, _))

instance (s : State O) (t : Timeout) : Decidable (s.Disarmable t) :=
  inferInstanceAs (Decidable (_ → _))

instance (duration : Int) : Decidable (Kept duration) := inferInstanceAs (Decidable (_ ∧ (_ ∨ _)))

instance (s : State O) (o : O) : Decidable (s.Running o) :=
  inferInstanceAs (Decidable (∃ p ∈ s.running, _))

def Meets (s : State O) : Event O → Prop
  | .arm o duration fd =>
    ∀ t ∈ s.timeouts o, fd.isSome ∧ Kept duration ∧ ¬s.Pending t ∧ ¬s.Running o
  | .move other this =>
    (∀ t ∈ s.timeouts other, ¬s.Pending t) ∧ (∀ t ∈ s.timeouts this, ¬s.Pending t) ∧
      ¬s.Running this
  | .disarm o => ∀ t ∈ s.timeouts o, s.Disarmable t
  | .destroy o => ∀ t ∈ s.timeouts o, s.Disarmable t ∧ ¬s.Running o
  | .ready fd => ∀ e ∈ s.timers fd, e.active →
    ∃ expiry ∈ s.timerfds fd, ∃ time ∈ expiry, time ≤ s.now
  | .construct _ | .send _ _ | .finish | .elapse _ => True

instance (s : State O) : ∀ event, Decidable (s.Meets event)
  | .arm o _ _ => inferInstanceAs (Decidable (∀ t ∈ s.timeouts o, _ ∧ _ ∧ ¬_ ∧ ¬_))
  | .move other this => inferInstanceAs (Decidable
      ((∀ t ∈ s.timeouts other, ¬_) ∧ (∀ t ∈ s.timeouts this, ¬_) ∧ ¬_))
  | .disarm o => inferInstanceAs (Decidable (∀ t ∈ s.timeouts o, _))
  | .destroy o => inferInstanceAs (Decidable (∀ t ∈ s.timeouts o, _ ∧ ¬_))
  | .ready fd => inferInstanceAs (Decidable
      (∀ e ∈ s.timers fd, e.active → ∃ expiry ∈ s.timerfds fd, ∃ time ∈ expiry, time ≤ s.now))
  | .construct _ | .send _ _ | .finish | .elapse _ => inferInstanceAs (Decidable True)

end State

end Pistache.Http.ResponseTimeout
