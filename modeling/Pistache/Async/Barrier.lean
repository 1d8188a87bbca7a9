import Mathlib.Logic.Function.Basic
import Pistache.Async.Core

/-!
# Barriers

Any number of threads wait at one `Barrier` for its promise: each attaches to the promise a
callback that notifies the condition variable, and then sleeps on it.  Other continuations are
attached to the promise too, and threads resolve or reject it.  A step of a thread is one access
to the state of the core, one operation on one of the two mutexes, or one on the condition
variable, which may wake a thread for no reason.

* `Waits.step` — the calls, their steps, and the ends of sleeps without a notification.
* `Waits.Sound` — the promise is settled by one call, and no callback of the others throws.
-/

set_option autoImplicit false

namespace Pistache.Async.Barrier

abbrev Thread := Nat

inductive Call where
  | wait
  | wait_for
  deriving DecidableEq, Repr

/-- `std::cv_status`. -/
inductive Status where
  | no_timeout
  | timeout
  deriving DecidableEq, Repr

/-- A continuation of the promise; `notifies` tells those that a barrier has attached. -/
structure Request where
  number : Nat
  notifies : Bool
  deriving DecidableEq, Repr

/-- What runs a callback of the barrier, with the lock of the core: `then`, or the loop of a
`Resolver` or a `Rejection`, which has then the requests of `rest` to call. -/
inductive Caller where
  | attaching (call : Call) (request : Request)
  | settling (branch : Branch) (request : Request) (rest : List Request)
  deriving DecidableEq, Repr

/-- Where a thread is. -/
inductive At where
  | out
  /-- `wait` and `wait_for`, up to `then`, which waits for the lock of the core. -/
  | isFulfilled (call : Call)
  | isRejected (call : Call)
  | then_ (call : Call)
  /-- A callback, which waits for the mutex, notifies and releases it; and the end of `then`. -/
  | guard (caller : Caller)
  | notify_one (caller : Caller)
  | unguard (caller : Caller)
  | push_back (call : Call) (request : Request)
  /-- `wait` and `wait_for` after `then`: the mutex, the predicate of `wait`, and the sleep. -/
  | lock (call : Call)
  | testFulfilled
  | testRejected
  | block (call : Call)
  | blocked (call : Call)
  | relock (call : Call) (status : Status)
  | leave (call : Call) (status : Status)
  /-- A `then` that is not the barrier's. -/
  | attach
  /-- A `Resolver` or a `Rejection`: the test, the lock of the core, the loop. -/
  | test (branch : Branch)
  | settle (branch : Branch)
  | loop (branch : Branch) (rest : List Request)
  deriving DecidableEq, Repr

/-- The lock of the core is held. -/
def At.core : At → Bool
  | .guard _ | .notify_one _ | .unguard _ | .push_back .. | .loop .. => true
  | _ => false

/-- The mutex of the barrier is held. -/
def At.mutex : At → Bool
  | .notify_one _ | .unguard _ | .testFulfilled | .testRejected | .block _ | .leave .. => true
  | _ => false

def Branch.state : Branch → State
  | .resolve => .fulfilled
  | .reject => .rejected

/-- The core of the promise, the mutex and the condition variable of the barrier, and the
threads.  `called` are the calls that passed `resolveCount_` and `rejectCount_`; `returned` has
what the calls have returned, which is nothing for `wait`. -/
structure Waits where
  state : State := .pending
  coreMtx : Option Thread := none
  requests : List Request := []
  next : Nat := 0
  called : Nat → Branch → Bool := fun _ _ => false
  mtx : Option Thread := none
  cv : List Thread := []
  pos : Thread → At := fun _ => .out
  returned : List (Thread × Call × Status) := []

/-- A call that a thread makes. -/
inductive Start where
  | waits (call : Call)
  | attaches
  | settles (branch : Branch)
  deriving DecidableEq, Repr

def Start.pos : Start → At
  | .waits call => .isFulfilled call
  | .attaches => .attach
  | .settles branch => .test branch

inductive Event where
  | call (t : Thread) (start : Start)
  /-- A thread goes on; `chosen` is the place of the thread that `notify_one` wakes, and `throws`
  whether the callback of another continuation does. -/
  | go (t : Thread) (chosen : Nat) (throws : Bool)
  /-- A thread is woken for no reason. -/
  | wakes (t : Thread)
  /-- The period of a `wait_for` has passed. -/
  | elapses (t : Thread)
  deriving DecidableEq, Repr

namespace Waits

variable (s : Waits)

def move (t : Thread) (pos : At) : Waits := { s with pos := Function.update s.pos t pos }

def return_ (t : Thread) (call : Call) (status : Status) : Waits :=
  { s with returned := s.returned ++ [(t, call, status)] }.move t .out

def call (request : Request) (branch : Branch) : Waits :=
  { s with
    called := Function.update s.called request.number
      (Function.update (s.called request.number) branch true) }

section

variable (t u : Thread) (pos : At) (call : Call) (status : Status) (request : Request)
  (branch b : Branch) (n : Nat)

@[simp, grind =] theorem move_pos : (s.move t pos).pos u = if u = t then pos else s.pos u :=
  Function.update_apply ..

@[simp, grind =] theorem move_state : (s.move t pos).state = s.state := rfl

@[simp, grind =] theorem move_coreMtx : (s.move t pos).coreMtx = s.coreMtx := rfl

@[simp, grind =] theorem move_requests : (s.move t pos).requests = s.requests := rfl

@[simp, grind =] theorem move_next : (s.move t pos).next = s.next := rfl

@[simp, grind =] theorem move_called : (s.move t pos).called n b = s.called n b := rfl

@[simp, grind =] theorem move_mtx : (s.move t pos).mtx = s.mtx := rfl

@[simp, grind =] theorem move_cv : (s.move t pos).cv = s.cv := rfl

@[simp, grind =] theorem move_returned : (s.move t pos).returned = s.returned := rfl

@[simp, grind =] theorem return_pos :
    (s.return_ t call status).pos u = if u = t then .out else s.pos u :=
  Function.update_apply ..

@[simp, grind =] theorem return_state : (s.return_ t call status).state = s.state := rfl

@[simp, grind =] theorem return_coreMtx : (s.return_ t call status).coreMtx = s.coreMtx := rfl

@[simp, grind =] theorem return_requests : (s.return_ t call status).requests = s.requests := rfl

@[simp, grind =] theorem return_next : (s.return_ t call status).next = s.next := rfl

@[simp, grind =] theorem return_called : (s.return_ t call status).called n b = s.called n b := rfl

@[simp, grind =] theorem return_mtx : (s.return_ t call status).mtx = s.mtx := rfl

@[simp, grind =] theorem return_cv : (s.return_ t call status).cv = s.cv := rfl

@[simp, grind =] theorem return_returned :
    (s.return_ t call status).returned = s.returned ++ [(t, call, status)] := rfl

@[simp, grind =] theorem call_called : (s.call request branch).called n b =
    if n = request.number ∧ b = branch then true else s.called n b := by
  unfold Waits.call
  simp only [Function.update_apply]
  by_cases hn : n = request.number
  · subst hn
    by_cases hb : b = branch <;> simp [hb]
  · simp [hn]

@[simp, grind =] theorem call_pos : (s.call request branch).pos u = s.pos u := rfl

@[simp, grind =] theorem call_state : (s.call request branch).state = s.state := rfl

@[simp, grind =] theorem call_coreMtx : (s.call request branch).coreMtx = s.coreMtx := rfl

@[simp, grind =] theorem call_requests : (s.call request branch).requests = s.requests := rfl

@[simp, grind =] theorem call_next : (s.call request branch).next = s.next := rfl

@[simp, grind =] theorem call_mtx : (s.call request branch).mtx = s.mtx := rfl

@[simp, grind =] theorem call_cv : (s.call request branch).cv = s.cv := rfl

@[simp, grind =] theorem call_returned : (s.call request branch).returned = s.returned := rfl

end

/-- `Promise::then` under the lock of the core, which it has taken: on a Pending promise it runs
to its end, on another one to the callback. -/
def then_ (t : Thread) (call : Call) : Waits :=
  let request : Request := ⟨s.next, true⟩
  let s := { s with next := s.next + 1 }
  match s.state.branch with
  | none => { s with requests := s.requests ++ [request] }.move t (.lock call)
  | some branch =>
    ({ s with coreMtx := some t }.call request branch).move t (.guard (.attaching call request))

/-- The same for the continuation of somebody else, with its callback. -/
def attach (t : Thread) (throws : Bool) : Waits :=
  let request : Request := ⟨s.next, false⟩
  let s := { s with next := s.next + 1 }
  match s.state.branch with
  | none => { s with requests := s.requests ++ [request] }.move t .out
  | some branch =>
    if throws then (s.call request branch).move t .out
    else { s.call request branch with requests := s.requests ++ [request] }.move t .out

/-- `notify_one`: one of the threads that sleep, if there is one, is to take the mutex again. -/
def notify_one (chosen : Nat) : Waits :=
  match s.cv[chosen % s.cv.length]? with
  | none => s
  | some u =>
    match s.pos u with
    | .blocked call => { s with cv := s.cv.erase u }.move u (.relock call .no_timeout)
    | _ => s

/-- One round of the loop over the requests. -/
def loop (t : Thread) (branch : Branch) (throws : Bool) : List Request → Waits
  | [] => { s with coreMtx := none }.move t .out
  | request :: rest =>
    if s.called request.number branch then s.move t (.loop branch rest)
    else if request.notifies then
      (s.call request branch).move t (.guard (.settling branch request rest))
    else if throws then { s.call request branch with coreMtx := none }.move t .out
    else (s.call request branch).move t (.loop branch rest)

/-- A thread that finds a mutex taken waits for it, and one that sleeps goes on sleeping. -/
def go (t : Thread) (chosen : Nat) (throws : Bool) : Waits :=
  match s.pos t with
  | .out => s
  | .isFulfilled call =>
    if s.state = .fulfilled then s.return_ t call .no_timeout else s.move t (.isRejected call)
  | .isRejected call =>
    if s.state = .rejected then s.return_ t call .no_timeout else s.move t (.then_ call)
  | .then_ call => if s.coreMtx = none then s.then_ t call else s
  | .guard caller =>
    if s.mtx = none then { s with mtx := some t }.move t (.notify_one caller) else s
  | .notify_one caller => (s.notify_one chosen).move t (.unguard caller)
  | .unguard (.attaching call request) => { s with mtx := none }.move t (.push_back call request)
  | .unguard (.settling branch _ rest) => { s with mtx := none }.move t (.loop branch rest)
  | .push_back call request =>
    { s with requests := s.requests ++ [request], coreMtx := none }.move t (.lock call)
  | .lock call =>
    if s.mtx = none then
      { s with mtx := some t }.move t (match call with
        | .wait => .testFulfilled
        | .wait_for => .block .wait_for)
    else s
  | .testFulfilled =>
    s.move t (if s.state = .fulfilled then .leave .wait .no_timeout else .testRejected)
  | .testRejected =>
    s.move t (if s.state = .rejected then .leave .wait .no_timeout else .block .wait)
  | .block call => { s with mtx := none, cv := s.cv ++ [t] }.move t (.blocked call)
  | .blocked _ => s
  | .relock call status =>
    if s.mtx = none then
      { s with mtx := some t }.move t (match call with
        | .wait => .testFulfilled
        | .wait_for => .leave .wait_for status)
    else s
  | .leave call status => { s with mtx := none }.return_ t call status
  | .attach => if s.coreMtx = none then s.attach t throws else s
  | .test branch => s.move t (if s.state = .pending then .settle branch else .out)
  | .settle branch =>
    if s.coreMtx = none then
      { s with coreMtx := some t, state := Branch.state branch }.move t (.loop branch s.requests)
    else s
  | .loop branch rest => s.loop t branch throws rest

/-- The end of a sleep that no notification ends. -/
def rises (t : Thread) : Waits :=
  match s.pos t with
  | .blocked call => { s with cv := s.cv.erase t }.move t (.relock call .no_timeout)
  | _ => s

/-- The period has passed, for a thread that sleeps or that has been woken and waits for the
mutex. -/
def elapses (t : Thread) : Waits :=
  match s.pos t with
  | .blocked .wait_for => { s with cv := s.cv.erase t }.move t (.relock .wait_for .timeout)
  | .relock .wait_for _ => s.move t (.relock .wait_for .timeout)
  | _ => s

def step (s : Waits) : Event → Waits
  | .call t start => if s.pos t = .out then s.move t start.pos else s
  | .go t chosen throws => s.go t chosen throws
  | .wakes t => s.rises t
  | .elapses t => s.elapses t

abbrev run : Waits → List Event → Waits := Machine.run step

/-- The condition on a step: no call of a `Resolver` or a `Rejection` passes its test while
another one waits for the lock, and no callback of somebody else throws. -/
def Sound (s : Waits) : Event → Prop
  | .go t _ throws => throws = false ∧
    ∀ branch, s.pos t = .test branch → ∀ u branch', s.pos u ≠ .settle branch'
  | _ => True

end Waits

end Pistache.Async.Barrier
