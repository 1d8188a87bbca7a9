import Pistache.Async.Order
import Mathlib.Data.List.TakeWhile

/-!
# Sections

What a section may do to the promises, and the condition `Sound` on a step under which it keeps
them in order: a settlement that takes the lock finds its core still Pending, `then` is not
called on a core whose loop is under way, and a callback neither leaves such a loop by an
exception nor takes the value away.

* `Continuation.verdict` — what a continuation makes of the outcome of its core.
* `System.finish_cases` — what the end of a callback does, by this verdict.
-/

set_option autoImplicit false

namespace Pistache.Async

variable {V E : Type}

/-- What a settled core has: the value of a Fulfilled one, the exception of a Rejected one. -/
inductive Outcome (V E : Type) where
  | fulfilled (value : Option V)
  | rejected (exc : Option E)
  deriving DecidableEq, Repr

def Outcome.branch : Outcome V E → Branch
  | .fulfilled _ => .resolve
  | .rejected _ => .reject

def Core.outcome (core : Core V E) : Option (Outcome V E) :=
  match core.state with
  | .pending => none
  | .fulfilled => some (.fulfilled core.value)
  | .rejected => some (.rejected core.exc)

namespace Core

variable {core : Core V E}

theorem outcome_eq_none : core.outcome = none ↔ core.state = .pending := by
  unfold outcome
  cases core.state <;> simp

theorem branch_of_outcome {o : Outcome V E} (h : core.outcome = some o) :
    core.state.branch = some o.branch := by
  unfold outcome at h
  cases hstate : core.state <;> rw [hstate] at h <;> cases h <;> rfl

theorem not_pending_of_outcome {o : Outcome V E} (h : core.outcome = some o) :
    core.state ≠ .pending := by
  intro hpending
  rw [outcome_eq_none.mpr hpending] at h
  cases h

theorem outcome_of_branch {b : Branch} (h : core.state.branch = some b) :
    ∃ o, core.outcome = some o ∧ o.branch = b := by
  unfold outcome
  cases hstate : core.state <;> rw [hstate] at h <;> cases h
  · exact ⟨_, rfl, rfl⟩
  · exact ⟨_, rfl, rfl⟩

theorem not_pending_of_branch {b : Branch} (h : core.state.branch = some b) :
    core.state ≠ .pending := by
  intro hpending
  rw [hpending] at h
  cases h

end Core

/-- What a continuation makes of the outcome of its core. -/
inductive Verdict (V E : Type) where
  | settled (o : Outcome V E)
  | waits (q : Id)
  | stuck

/-- What the code does with the chain: it gives it an outcome, it waits for the promise that the
callback returned, or it does nothing, which is the case after a callback that returns nothing,
after one that throws, and after a reject function that does not rethrow. -/
def Continuation.verdict : Continuation V E → Outcome V E → Verdict V E
  | .chainer _, o => .settled o
  | .link (.value _ f) _, .fulfilled v =>
    match f v with
    | .ok w => .settled (.fulfilled (some w))
    | .error _ => .stuck
  | .link (.nothing _) _, .fulfilled _ => .stuck
  | .link (.promise _ f) _, .fulfilled v =>
    match f v with
    | .ok q => .waits q
    | .error _ => .stuck
  | .link _ reject_, .rejected e =>
    match reject_ e with
    | .rethrows => .settled (.rejected e)
    | _ => .stuck

namespace System

/-- The requests of a core that the loops under way have still to call. -/
def queue (c : Id) (stack : List (Task V E)) : List (Request V E) :=
  stack.filterMap fun
    | .notify _ c' r => if c' = c then some r else none
    | _ => none

/-- The requests whose callbacks are running. -/
def bodies (stack : List (Task V E)) : List Nat :=
  stack.filterMap fun
    | .body _ _ r => some r.number
    | _ => none

variable (s : System V E)

/-! ## The condition -/

/-- `then` can be called: its lock is free, and no loop has a continuation left to call. -/
def Ready (c : Id) : Prop :=
  s.locked c = false ∧
    ((s.cores c).state ≠ .pending → ∀ r ∈ (s.cores c).requests, (s.cores c).started r)

/-- The loops that an exception would leave have no continuation left to call. -/
def Spent : Prop :=
  ∀ ended rest, s.stack = ended ++ rest → bodies ended = [] →
    ∀ b c r, .notify b c r ∈ ended → (s.cores c).started r

/-- The end of a callback breaks nothing: it leaves its argument as it was, an exception leaves
no loop early, it returns a promise on which `then` can be called; and a reject function that
returns, of a continuation of a void promise that would have returned a value, does so before
anything is attached to its chain. -/
def Ends (b : Branch) (c : Id) (r : Request V E) : Prop :=
  match r.continuation, b with
  | .chainer _, _ => True
  | .link (.value leaves f) _, .resolve =>
    (s.cores c).value.map leaves = (s.cores c).value ∧
      ∀ e, f (s.cores c).value = .error e → s.Spent
  | .link (.nothing f) _, .resolve => ∀ e, f (s.cores c).value = .error e → s.Spent
  | .link (.promise leaves f) _, .resolve =>
    (s.cores c).value.map leaves = (s.cores c).value ∧
      (∀ e, f (s.cores c).value = .error e → s.Spent) ∧
      ∀ q, f (s.cores c).value = .ok q → s.Ready q
  | .link resolve_ reject_, .reject =>
    (∀ e, reject_ (s.cores c).exc = .throws e → s.Spent) ∧
      (reject_ (s.cores c).exc = .returns → s.isVoid c → ∀ leaves f, resolve_ = .value leaves f →
        (s.cores (.chain r.number)).requests = [])

/-- The condition on a step. -/
def Sound (s : System V E) : Event V E → Prop
  | .test _ => True
  | .enter i => s.calling → ∀ call, s.calls[i]? = some call →
      s.locked call.core = false ∧
        ((∀ n, call ≠ .resolve n .otherType) → (s.cores call.core).state = .pending)
  | .attach c _ _ => s.calling → s.Ready c
  | .run => ∀ b c r rest, s.stack = .body b c r :: rest → (s.withStack rest).Ends b c r

/-! ## The end of a callback -/

@[simp] theorem queue_nil (c : Id) : queue c ([] : List (Task V E)) = [] := rfl

@[simp] theorem queue_append (c : Id) (l l' : List (Task V E)) :
    queue c (l ++ l') = queue c l ++ queue c l' :=
  List.filterMap_append

@[simp] theorem queue_notify (b : Branch) (c : Id) (r : Request V E) (l : List (Task V E)) :
    queue c (.notify b c r :: l) = r :: queue c l := by
  simp [queue]

theorem queue_notify_of_ne {c c' : Id} (h : c' ≠ c) (b : Branch) (r : Request V E)
    (l : List (Task V E)) : queue c (.notify b c' r :: l) = queue c l := by
  simp [queue, h]

@[simp] theorem queue_body (b : Branch) (c c' : Id) (r : Request V E) (l : List (Task V E)) :
    queue c (.body b c' r :: l) = queue c l := rfl

@[simp] theorem queue_push (c c' : Id) (r : Request V E) (l : List (Task V E)) :
    queue c (.push c' r :: l) = queue c l := rfl

@[simp] theorem queue_unlock (c c' : Id) (l : List (Task V E)) :
    queue c (.unlock c' :: l) = queue c l := rfl

@[simp] theorem queue_map_notify (b : Branch) (c : Id) (l : List (Request V E)) :
    queue c (l.map (.notify b c)) = l := by
  induction l with
  | nil => rfl
  | cons r l ih => rw [List.map_cons, queue_notify, ih]

theorem queue_map_notify_of_ne {c c' : Id} (h : c' ≠ c) (b : Branch) (l : List (Request V E)) :
    queue c (l.map (.notify b c')) = [] := by
  induction l with
  | nil => rfl
  | cons r l ih => rw [List.map_cons, queue_notify_of_ne h, ih]

theorem mem_queue {c : Id} {r : Request V E} {l : List (Task V E)} :
    r ∈ queue c l ↔ ∃ b, .notify b c r ∈ l := by
  constructor
  · intro hr
    obtain ⟨task, htask, heq⟩ := List.mem_filterMap.mp hr
    cases task with
    | notify b c' r' =>
      simp only [Option.ite_none_right_eq_some, Option.some.injEq] at heq
      obtain ⟨rfl, rfl⟩ := heq
      exact ⟨b, htask⟩
    | body | push | unlock => cases heq
  · rintro ⟨b, hr⟩
    exact List.mem_filterMap.mpr ⟨_, hr, by simp⟩

@[simp] theorem bodies_append (l l' : List (Task V E)) :
    bodies (l ++ l') = bodies l ++ bodies l' :=
  List.filterMap_append

@[simp] theorem bodies_notify (b : Branch) (c : Id) (r : Request V E) (l : List (Task V E)) :
    bodies (.notify b c r :: l) = bodies l := rfl

@[simp] theorem bodies_body (b : Branch) (c : Id) (r : Request V E) (l : List (Task V E)) :
    bodies (.body b c r :: l) = r.number :: bodies l := rfl

@[simp] theorem bodies_push (c : Id) (r : Request V E) (l : List (Task V E)) :
    bodies (.push c r :: l) = bodies l := rfl

@[simp] theorem bodies_unlock (c : Id) (l : List (Task V E)) :
    bodies (.unlock c :: l) = bodies l := rfl

@[simp] theorem bodies_map_notify (b : Branch) (c : Id) (l : List (Request V E)) :
    bodies (l.map (.notify b c)) = [] := by
  induction l with
  | nil => rfl
  | cons r l ih => rw [List.map_cons, bodies_notify, ih]

theorem mem_bodies {n : Nat} {l : List (Task V E)} :
    n ∈ bodies l ↔ ∃ b c r, .body b c r ∈ l ∧ r.number = n := by
  constructor
  · intro hn
    obtain ⟨task, htask, heq⟩ := List.mem_filterMap.mp hn
    cases task with
    | body b c r => exact ⟨b, c, r, htask, Option.some.inj heq⟩
    | notify | push | unlock => cases heq
  · rintro ⟨b, c, r, hr, rfl⟩
    exact List.mem_filterMap.mpr ⟨_, hr, rfl⟩

@[simp] theorem withStack_stack (l : List (Task V E)) : (s.withStack l).stack = l := rfl

@[simp] theorem withStack_cores (l : List (Task V E)) : (s.withStack l).cores = s.cores := rfl

@[simp] theorem withStack_next (l : List (Task V E)) : (s.withStack l).next = s.next := rfl

@[simp] theorem withStack_isVoid (l : List (Task V E)) : (s.withStack l).isVoid = s.isVoid := rfl

@[simp] theorem set_cores_self (c : Id) (core : Core V E) : (s.set c core).cores c = core :=
  Function.update_self ..

theorem set_cores_of_ne {c c' : Id} (h : c' ≠ c) (core : Core V E) :
    (s.set c core).cores c' = s.cores c' :=
  Function.update_of_ne h ..

@[simp] theorem set_stack (c : Id) (core : Core V E) : (s.set c core).stack = s.stack := rfl

@[simp] theorem set_next (c : Id) (core : Core V E) : (s.set c core).next = s.next := rfl

/-- Writing a core back changes nothing. -/
theorem set_cores (c : Id) : s.set c (s.cores c) = s := by
  unfold set
  rw [Function.update_eq_self]

/-- A loop over no requests does nothing. -/
theorem settle_nil (b : Branch) (c : Id) (h : (s.cores c).requests = []) :
    s.settle b c (s.cores c) = s := by
  unfold settle
  rw [set_cores, h]
  rfl

/-- An exception ends the section down to the next callback. -/
theorem thrown_eq : ∃ ended rest, s.stack = ended ++ rest ∧ bodies ended = [] ∧
    s.thrown = s.withStack rest := by
  refine ⟨_, _, List.takeWhile_append_dropWhile.symm, ?_, rfl⟩
  refine List.filterMap_eq_nil_iff.mpr fun task htask => ?_
  have hnot := List.mem_takeWhile_imp htask
  cases task with
  | body => cases hnot
  | notify | push | unlock => rfl

variable {s}

theorem readable_of_fulfilled {c : Id} {v : Option V}
    (h : (s.cores c).outcome = some (.fulfilled v)) : s.readable c = true := by
  unfold Core.outcome at h
  cases hstate : (s.cores c).state <;> rw [hstate] at h <;> cases h
  simp [readable, hstate]

theorem value_of_fulfilled {c : Id} {v : Option V}
    (h : (s.cores c).outcome = some (.fulfilled v)) : (s.cores c).value = v := by
  unfold Core.outcome at h
  cases hstate : (s.cores c).state <;> rw [hstate] at h <;> cases h
  rfl

theorem exc_of_rejected {c : Id} {e : Option E}
    (h : (s.cores c).outcome = some (.rejected e)) : (s.cores c).exc = e := by
  unfold Core.outcome at h
  cases hstate : (s.cores c).state <;> rw [hstate] at h <;> cases h
  rfl

/-- A settlement of `c` with the outcome `o`. -/
structure Settles (s : System V E) (c : Id) (o : Outcome V E) (s' : System V E) : Prop where
  eq : ∃ core', s' = s.settle o.branch c core' ∧ core'.requests = (s.cores c).requests ∧
    core'.attached = (s.cores c).attached ∧ core'.ran = (s.cores c).ran ∧ core'.outcome = some o

theorem settles_fulfil (s : System V E) (c : Id) (arg : Option V) :
    s.Settles c (.fulfilled arg) (s.fulfil c arg) :=
  ⟨_, rfl, rfl, rfl, rfl, rfl⟩

theorem settles_reject (s : System V E) (c : Id) (exc : Option E) :
    s.Settles c (.rejected exc) (s.reject c exc) :=
  ⟨_, rfl, rfl, rfl, rfl, rfl⟩

/-- The end of a callback that comes to nothing: the loops over the requests of a void promise,
an exception, or no more than that. -/
inductive Fruitless (s : System V E) (c : Id) : System V E → Prop where
  | same : Fruitless s c s
  | again : (s.cores c).state.branch = some .reject →
      Fruitless s c (s.settle .reject c (s.cores c))
  | thrown : s.Spent → Fruitless s c s.thrown

/-- **The end of a callback**, by the verdict of its continuation. -/
theorem finish_cases {c : Id} {r : Request V E} {o : Outcome V E}
    (houtcome : (s.cores c).outcome = some o) (hends : s.Ends o.branch c r) :
    match r.continuation.verdict o with
    | .settled o' => s.Settles (.chain r.chain) o' (s.finish o.branch c r)
    | .waits q => s.finish o.branch c r = s.attach q (.chainer r.number) ∧ s.Ready q ∧
        r.chain = r.number
    | .stuck => s.Fruitless c (s.finish o.branch c r) := by
  obtain ⟨n, k⟩ := r
  cases o with
  | fulfilled v =>
    have hreadable := readable_of_fulfilled houtcome
    have hvalue := value_of_fulfilled houtcome
    cases k with
    | chainer k =>
      simp only [Continuation.verdict, finish, Outcome.branch, hreadable, if_true, hvalue]
      exact settles_fulfil s _ v
    | link resolve_ reject_ =>
      cases resolve_ with
      | value leaves f =>
        simp only [Ends, Outcome.branch, hvalue] at hends
        have hset : s.set c { s.cores c with value := v.map leaves } = s := by
          rw [hends.1, ← hvalue]
          exact set_cores s c
        simp only [Continuation.verdict, finish, Outcome.branch, hreadable, if_true, hvalue, hset]
        cases hf : f v with
        | ok w => exact settles_fulfil s _ (some w)
        | error e => exact .thrown (hends.2 e hf)
      | nothing f =>
        simp only [Ends, Outcome.branch, hvalue] at hends
        simp only [Continuation.verdict, finish, Outcome.branch, hreadable, if_true, hvalue]
        cases hf : f v with
        | ok u => exact .same
        | error e => exact .thrown (hends e hf)
      | promise leaves f =>
        simp only [Ends, Outcome.branch, hvalue] at hends
        have hset : s.set c { s.cores c with value := v.map leaves } = s := by
          rw [hends.1, ← hvalue]
          exact set_cores s c
        simp only [Continuation.verdict, finish, Outcome.branch, hreadable, if_true, hvalue, hset]
        cases hf : f v with
        | ok q => exact ⟨rfl, hends.2.2 q hf, rfl⟩
        | error e => exact .thrown (hends.2.1 e hf)
  | rejected e =>
    have hexc := exc_of_rejected houtcome
    cases k with
    | chainer k =>
      simp only [Continuation.verdict, finish, Outcome.branch, hexc]
      exact settles_reject s _ e
    | link resolve_ reject_ =>
      simp only [Ends, Outcome.branch, hexc] at hends
      simp only [Continuation.verdict, finish, Outcome.branch, hexc]
      cases hreject : reject_ e with
      | rethrows => exact settles_reject s _ e
      | throws e' => exact .thrown (hends.1 e' hreject)
      | returns =>
        dsimp only
        by_cases hvoid : s.isVoid c = true
        · rw [if_pos hvoid]
          cases resolve_ with
          | value leaves f =>
            rw [settle_nil s _ _ (hends.2 hreject hvoid leaves f rfl)]
            exact .same
          | nothing f => exact .same
          | promise leaves f => exact .again (Core.branch_of_outcome houtcome)
        · rw [if_neg hvoid]
          exact .same

end System

end Pistache.Async
