import Pistache.Lib.Machine
import Mathlib.Data.List.Basic
import Mathlib.Logic.Function.Basic

/-!
# Promises

Promises, their cores and the continuations attached to them.  A call of `then`, `resolve` or
`reject` is a critical section; while a callback of the section runs it makes calls of its own,
so the section is a stack of tasks and `step` executes the task on top.

* A promise is made by the program, with a `Resolver` and a `Rejection`, or it is the chain of a
  `then`; the core of the `k`-th `then` is `chain k`, which is Pending until then.
* A section runs to its end before the next one begins; only the test that `Resolver` and
  `Rejection` make before they take the lock happens at any time.
* An exception leaves the section up to the callback that made the call; how that callback ends
  then is, as always, for its own function to say.
-/

set_option autoImplicit false

namespace Pistache.Async

inductive State where
  | pending
  | fulfilled
  | rejected
  deriving DecidableEq, Repr

/-- The two calls of a request, `resolve` and `reject`. -/
inductive Branch where
  | resolve
  | reject
  deriving DecidableEq, Repr

/-- The branch that belongs to a state. -/
def State.branch : State → Option Branch
  | .pending => none
  | .fulfilled => some .resolve
  | .rejected => some .reject

inductive Id where
  | promise (n : Nat)
  | chain (k : Nat)
  deriving DecidableEq, Repr

/-- The resolve function of a `then`, which returns a value, nothing or a promise.  It is called
with the value of the core, or with nothing for a void promise.  `leaves` is what stays of a
value that the function takes by rvalue reference (`tryMove`). -/
inductive ResolveFunc (V E : Type) where
  | value (leaves : V → V) (f : Option V → Except E V)
  | nothing (f : Option V → Except E Unit)
  | promise (leaves : V → V) (f : Option V → Except E Id)

/-- How the reject function of a `then` ends; `rethrows` is `Async::Throw`. -/
inductive Handled (E : Type) where
  | returns
  | rethrows
  | throws (e : E)

/-- A `Continuation`: made by a `then` of the program, or the `Chainer` that waits for the
promise a callback has returned. -/
inductive Continuation (V E : Type) where
  | link (resolve_ : ResolveFunc V E) (reject_ : Option E → Handled E)
  | chainer (chainCore : Nat)

structure Request (V E : Type) where
  number : Nat
  continuation : Continuation V E

/-- The chain that the request is to settle. -/
def Request.chain {V E : Type} (r : Request V E) : Nat :=
  match r.continuation with
  | .link _ _ => r.number
  | .chainer k => k

/-- A core.  `ran` has the calls that passed the guards `resolveCount_` and `rejectCount_` of its
requests; `attached` has every request that a `then` made for it, in order. -/
structure Core (V E : Type) where
  state : State := .pending
  value : Option V := none
  exc : Option E := none
  requests : List (Request V E) := []
  attached : List (Request V E) := []
  ran : List (Nat × Branch) := []

/-- What a section has still to do: a call of its loop over the requests, the rest of a callback,
the `push_back` at the end of `then`, and the end of the guard. -/
inductive Task (V E : Type) where
  | notify (branch : Branch) (core : Id) (request : Request V E)
  | body (branch : Branch) (core : Id) (request : Request V E)
  | push (core : Id) (request : Request V E)
  | unlock (core : Id)

/-- The argument of a `Resolver`; `otherType` is one whose type is not that of the core. -/
inductive Arg (V : Type) where
  | nothing
  | value (v : V)
  | otherType

/-- A call of a `Resolver` or of a `Rejection`. -/
inductive Settle (V E : Type) where
  | resolve (n : Nat) (arg : Arg V)
  | reject (n : Nat) (exc : E)

def Settle.core {V E : Type} : Settle V E → Id
  | .resolve n _ => .promise n
  | .reject n _ => .promise n

/-- The promises, the section under way, and the calls that have passed the test and not yet
taken the lock. -/
structure System (V E : Type) where
  isVoid : Id → Bool
  cores : Id → Core V E
  next : Nat := 0
  stack : List (Task V E) := []
  calls : List (Settle V E) := []

variable {V E : Type}

namespace Core

/-- `resolveCount_` and `rejectCount_`. -/
def count (core : Core V E) (b : Branch) (r : Request V E) : Nat :=
  core.ran.count (r.number, b)

end Core

namespace System

variable (s : System V E)

def set (c : Id) (core : Core V E) : System V E :=
  { s with cores := Function.update s.cores c core }

def withStack (stack : List (Task V E)) : System V E :=
  { s with stack := stack }

/-- The lock is held by the section under way. -/
def locked (c : Id) : Bool :=
  s.stack.any fun
    | .unlock c' => c' = c
    | _ => false

/-- Calls can be made: no section is under way, or a callback of the program is running. -/
def calling : Bool :=
  match s.stack with
  | [] => true
  | .body _ _ ⟨_, .link _ _⟩ :: _ => true
  | _ => false

/-- An exception ends the loops and the guards up to the callback that made the call. -/
def thrown : System V E :=
  s.withStack (s.stack.dropWhile fun
    | .body _ _ _ => false
    | _ => true)

/-- `Continuable::resolve` and `Continuable::reject`, up to the call of the callback. -/
def start (b : Branch) (c : Id) (r : Request V E) : System V E :=
  if 1 ≤ (s.cores c).count b r then s
  else
    (s.set c { s.cores c with ran := (s.cores c).ran ++ [(r.number, b)] }).withStack
      (.body b c r :: s.stack)

/-- A core is given its state and the loop over its requests begins. -/
def settle (b : Branch) (c : Id) (core : Core V E) : System V E :=
  (s.set c core).withStack (core.requests.map (.notify b c) ++ s.stack)

/-- `construct`, or `Fulfilled` for a void core, and the loop. -/
def fulfil (c : Id) (arg : Option V) : System V E :=
  s.settle .resolve c { s.cores c with state := .fulfilled, value := arg }

def reject (c : Id) (exc : Option E) : System V E :=
  s.settle .reject c { s.cores c with state := .rejected, exc := exc }

/-- `Promise::then`, from the lock to the callback or to the end. -/
def attach (c : Id) (k : Continuation V E) : System V E :=
  let r : Request V E := ⟨s.next, k⟩
  let core := { s.cores c with attached := (s.cores c).attached ++ [r] }
  let s := { s with next := s.next + 1 }
  match core.state with
  | .pending => s.set c { core with requests := core.requests ++ [r] }
  | .fulfilled => ((s.set c core).withStack (.push c r :: .unlock c :: s.stack)).start .resolve c r
  | .rejected => ((s.set c core).withStack (.push c r :: .unlock c :: s.stack)).start .reject c r

/-- `core->value()` can be taken. -/
def readable (c : Id) : Bool :=
  s.isVoid c || (s.cores c).state = .fulfilled

/-- The end of a callback and what `doResolve` and `doReject` do after it, by the specialization
of the continuation.  `s` is the system after the callback has been left. -/
def finish (s : System V E) (b : Branch) (c : Id) (r : Request V E) : System V E :=
  let core := s.cores c
  match r.continuation, b with
  | .chainer k, .resolve => if s.readable c then s.fulfil (.chain k) core.value else s.thrown
  | .chainer k, .reject => s.reject (.chain k) core.exc
  | .link resolve_ _, .resolve =>
    if s.readable c then
      match resolve_ with
      | .value leaves f =>
        match f core.value with
        | .ok v =>
          (s.set c { core with value := core.value.map leaves }).fulfil (.chain r.number) (some v)
        | .error _ => (s.set c { core with value := core.value.map leaves }).thrown
      | .nothing f =>
        match f core.value with
        -- the chain is not touched
        | .ok _ => s
        | .error _ => s.thrown
      | .promise leaves f =>
        match f core.value with
        | .ok q => (s.set c { core with value := core.value.map leaves }).attach q (.chainer r.number)
        | .error _ => (s.set c { core with value := core.value.map leaves }).thrown
    else s.thrown
  | .link resolve_ reject_, .reject =>
    match reject_ core.exc with
    | .rethrows => s.reject (.chain r.number) core.exc
    | .throws _ => s.thrown
    | .returns =>
      -- only the specializations for a void promise have a loop after the reject function
      if s.isVoid c then
        match resolve_ with
        | .value _ _ => s.settle .reject (.chain r.number) (s.cores (.chain r.number))
        | .nothing _ => s
        | .promise _ _ => s.settle .reject c core
      else s

/-- The promise that the callback returns, on which `then` is called. -/
def returned (b : Branch) (c : Id) (r : Request V E) : Option Id :=
  match r.continuation, b with
  | .link (.promise _ f) _, .resolve =>
    if s.readable c then (f (s.cores c).value).toOption else none
  | _, _ => none

/-- The tests of `Resolver` and `Rejection` before the lock. -/
def test (call : Settle V E) : Bool :=
  (s.cores call.core).state = .pending &&
    match call with
    | .resolve n .nothing => s.isVoid (.promise n)
    | .resolve n _ => !s.isVoid (.promise n)
    | .reject _ _ => true

/-- `Resolver` and `Rejection` under the lock. -/
def enter (call : Settle V E) : System V E :=
  let s' := s.withStack (.unlock call.core :: s.stack)
  match call with
  | .resolve n .nothing => s'.fulfil (.promise n) none
  | .resolve n (.value v) => s'.fulfil (.promise n) (some v)
  -- `construct` throws `BadType`
  | .resolve _ .otherType => s
  | .reject n exc => s'.reject (.promise n) (some exc)

end System

/-- A step of the program: the test of a call, the section of one of the calls that passed it,
a `then`, or one more task of the section under way. -/
inductive Event (V E : Type) where
  | test (call : Settle V E)
  | enter (i : Nat)
  | attach (c : Id) (resolve_ : ResolveFunc V E) (reject_ : Option E → Handled E)
  | run

/-- A call that finds the lock held waits, and the event does nothing: for ever when the callback
of the section that holds the lock makes it. -/
def System.step (s : System V E) : Event V E → System V E
  | .test call => if s.test call then { s with calls := s.calls ++ [call] } else s
  | .enter i =>
    match s.calls[i]? with
    | none => s
    | some call =>
      if s.calling ∧ ¬ s.locked call.core then
        { s with calls := s.calls.eraseIdx i }.enter call
      else s
  | .attach c resolve_ reject_ =>
    if s.calling ∧ ¬ s.locked c then s.attach c (.link resolve_ reject_) else s
  | .run =>
    match s.stack with
    | [] => s
    | .notify b c r :: rest => (s.withStack rest).start b c r
    | .body b c r :: rest =>
      if ∃ q ∈ s.returned b c r, (s.withStack rest).locked q then s
      else (s.withStack rest).finish b c r
    | .push c r :: rest =>
      (s.withStack rest).set c
        { s.cores c with requests := (s.cores c).requests ++ [r] }
    | .unlock _ :: rest => s.withStack rest

abbrev run : System V E → List (Event V E) → System V E := Machine.run System.step

end Pistache.Async
