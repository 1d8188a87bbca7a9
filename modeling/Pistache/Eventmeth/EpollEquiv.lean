import Mathlib.Data.Finset.Basic
import Pistache.Eventmeth.EmEventTmrFd
import Pistache.Lib.Locked

/-!
# The epoll emulation

`EventMethEpollEquiv` with its events, any number of each, as programs of any threads: `ctl`,
`read`, `write`, `settime`, `closeEvent` and `poll` with the callbacks.  A step is one mutex locked
or unlocked, one access to what the threads share, or one answer of libevent.

* `Code` — programs over the events and the interest sets.
* `procs` — what the threads call.
-/

set_option autoImplicit false

namespace Pistache.Eventmeth.EpollEquiv

open Locked

/-! ## The state -/

inductive EmEventType where
  | EmEvReg
  | EmEvEventFd
  | EmEvTimer
  deriving DecidableEq, Repr

/-- An `EmEvent *`: the class of the object, and which one it is. -/
structure Fd where
  type : EmEventType
  id : Nat
  deriving DecidableEq, Repr

inductive Mutex (M : Type) where
  | emee_cptr_set_mutex_
  | interest_mutex_ (emee : M)
  | ready_mutex_ (emee : M)
  | int_mut_locked_by_get_ready_em_events_mutex_ (emee : M)
  | counter_val_mutex_ (fd : Fd)
  deriving DecidableEq, Repr

/-- An `EmEvent`.  `ev_` stands for a libevent event that is not null, `actual_fd` for a
descriptor, and `blocking` for the condition variables of an `EmEventCtr`. -/
structure EmEvent (M : Type) where
  /-- made and not deleted -/
  alive : Bool := false
  /-- the `loop_timer_eme` of a `getReadyEmEventsHelper` -/
  loop_timer : Bool := false
  ev_ : Bool := false
  flags_ : Evm := {}
  add_was_artificial_ : Bool := false
  event_meth_epoll_equiv_impl_ : Option M := none
  actual_fd : Bool := false
  counter_val_ : UInt64 := 0
  blocking : Bool := false

structure Emee where
  interest_ : Finset Fd := ∅
  ready_ : Finset Fd := ∅
  int_mut_locked_by_get_ready_em_events_ : Bool := false
  /-- the set that the caller of `getReadyEmEvents` works on -/
  ready_evm_events_out : Finset Fd := ∅

structure State (M : Type) where
  event : Fd → EmEvent M
  emee : M → Emee
  /-- the number of the next object -/
  next : Nat

namespace State

variable {M : Type} [DecidableEq M]

def init : State M := ⟨fun _ => {}, fun _ => {}, 0⟩

def setEvent (s : State M) (fd : Fd) (event : EmEvent M) : State M :=
  { s with event := Function.update s.event fd event }

def setEmee (s : State M) (m : M) (emee : Emee) : State M :=
  { s with emee := Function.update s.emee m emee }

/-- A new object. -/
def alloc (s : State M) (type : EmEventType) (event : EmEvent M) : State M :=
  { s.setEvent ⟨type, s.next⟩ { event with alive := true } with next := s.next + 1 }

end State

/-- What libevent answers: it succeeds, or does not; `event_base_loop` also says that there are no
events, or calls back before it returns. -/
inductive Answer where
  | ok
  | error
  | idle
  | callback (fd : Fd) (timeout : Bool)
  deriving DecidableEq, Repr

/-- The functions that stand on a thread's stack. -/
inductive Call (M : Type) where
  | em_event_new
  | ctl (emee : M) (fd : Fd)
  | read (fd : Fd)
  | write (fd : Fd)
  | settime (fd : Fd) (emee : Option M)
  | closeEvent (fd : Fd)
  | poll (emee : M)
  /-- `event_base_loop`, where there is a `loop_timer_eme` or where there is none -/
  | event_base_loop (emee : M) (timed : Bool)
  | renewEv (fd : Fd)
  /-- `writeProt(1)` of a timer's callback -/
  | expire (fd : Fd)
  deriving DecidableEq, Repr

/-- The procedures.  `timed` says that the timeout is greater than zero, `running` that the time
that is set is not; `eventLoop` is `getReadyEmEventsHelper` from `event_base_loop` on. -/
inductive Proc (M : Type) where
  | em_event_new (type : EmEventType) (flags : Evm) (actual_fd blocking : Bool) (initval : UInt64)
      (emee : Option M)
  | ctl (op : EvCtlAction) (emee : M) (fd : Fd) (events : Evm)
  | read (fd : Fd)
  | write (fd : Fd) (val : UInt64)
  | settime (fd : Fd) (running : Bool) (emee : Option M)
  | closeEvent (fd : Fd)
  | poll (emee : M) (timed : Bool)
  | eventLoop (emee : M) (loop_timer_eme : Option Fd)

/-- What there is from the start. -/
structure Setting (M : Type) where
  emee_cptr_set_ : List M
  /-- `EV_FEATURE_EARLY_CLOSE` -/
  early_close : Bool

abbrev Code (M : Type) := Prog (Mutex M) (Call M) Answer (State M)

variable {M : Type} [DecidableEq M] (S : Setting M)

/-! ## Events and interest sets -/

def event (fd : Fd) : Code M (EmEvent M) := .read fun s => s.event fd

def setEvent (fd : Fd) (change : EmEvent M → EmEvent M) : Code M Unit :=
  .modify fun s => s.setEvent fd (change (s.event fd))

/-- The callback that libevent then makes comes as any other one. -/
def event_active : Code M Unit := pure ()

def isInterest (m : M) (fd : Fd) : Code M Bool := .read fun s => fd ∈ (s.emee m).interest_

def findFdInInterest (m : M) (fd : Fd) : Code M Bool :=
  .guarded (.interest_mutex_ m) (isInterest m fd)

def scan (fd : Fd) : List M → Code M (Option M)
  | [] => pure none
  | m :: ms => do
    if ← findFdInInterest m fd then pure (some m)
    else scan fd ms

def findEmEventInAnInterestSet (fd : Fd) : Code M (Option M) :=
  .guarded .emee_cptr_set_mutex_ (scan fd S.emee_cptr_set_)

def getEventMethEpollEquivImplFromEmeeSet (m : M) : Code M Bool :=
  .guarded .emee_cptr_set_mutex_ (pure (decide (m ∈ S.emee_cptr_set_)))

def getEventMethEpollEquivImpl (fd : Fd) : Code M (Option M) := do
  match (← event fd).event_meth_epoll_equiv_impl_ with
  | none => pure none
  | some m =>
    if ← getEventMethEpollEquivImplFromEmeeSet S m then pure (some m)
    else
      setEvent fd ({ · with event_meth_epoll_equiv_impl_ := none })
      pure none

/-! ## `EmEvent::ctl` -/

def setFlags (fd : Fd) (flgs : Evm) : Code M Unit := do
  if (← event fd).event_meth_epoll_equiv_impl_.isSome ∧ flgs.closed ∧ ¬S.early_close then
    .throw "No early close"
  else setEvent fd ({ · with flags_ := flgs })

/-- What `EmEvent::ctl` does about `event_meth_epoll_equiv_impl_`. -/
def attach (m : M) (fd : Fd) : Code M Unit := do
  match (← event fd).event_meth_epoll_equiv_impl_ with
  | none => setEvent fd ({ · with event_meth_epoll_equiv_impl_ := some m })
  | some prior_emee =>
    if prior_emee = m then pure ()
    else
      match ← findEmEventInAnInterestSet S fd with
      | none => setEvent fd ({ · with event_meth_epoll_equiv_impl_ := some m })
      | some owning_emee =>
        if owning_emee = m then setEvent fd ({ · with event_meth_epoll_equiv_impl_ := some m })
        else .throw "Unsupported emee change"

/-- What `EmEvent::ctl` does about `ev_` for `Add` and `Mod`. -/
def prepareEv (fd : Fd) (events : Evm) : Code M Bool := do
  let e ← event fd
  if ¬e.ev_ then
    setFlags S fd events
    let e ← event fd
    if ¬e.actual_fd ∧ (e.flags_.write ∨ e.flags_.read ∧ fd.type = .EmEvReg) then pure false
    else if (← .ask) = .ok then
      setEvent fd ({ · with ev_ := true })
      pure true
    else pure false
  else if events ≠ {} ∧ events ≠ e.flags_ then
    setEvent fd ({ · with ev_ := false })
    if (← .ask) = .ok then
      setEvent fd ({ · with ev_ := true })
      setFlags S fd events
      pure true
    else .throw "new replacement_ev is NULL"
  else pure true

/-- `EmEvent::ctl`.  The last answer is that of `event_add` or `event_del`. -/
def EmEvent.ctl (op : EvCtlAction) (m : M) (fd : Fd) (events : Evm) : Code M Bool := do
  attach S m fd
  if op = .Del then pure ((← .ask) = .ok)
  else if ← prepareEv S fd events then pure ((← .ask) = .ok)
  else pure false

/-- What `EmEventCtr::ctl` does behind `EmEvent::ctl`. -/
def EmEventCtr.activate (fd : Fd) : Code M Unit := do
  if (← event fd).ev_ then .guarded (.counter_val_mutex_ fd) event_active

/-- `EmEventCtr::ctl`. -/
def EmEventCtr.ctl (op : EvCtlAction) (m : M) (fd : Fd) (events : Evm) : Code M Bool := do
  if ← EmEvent.ctl S op m fd events then
    EmEventCtr.activate fd
    pure true
  else pure false

/-! ## `EventMethEpollEquivImpl::ctl` -/

def insertInterest (m : M) (fd : Fd) : Code M Bool :=
  .act (fun s => s.setEmee m { s.emee m with interest_ := insert fd (s.emee m).interest_ })
    fun s => pure (fd ∉ (s.emee m).interest_)

/-- `event` is erased from both sets. -/
def eraseBoth (m : M) (fd : Fd) (s : State M) : State M :=
  s.setEmee m { s.emee m with
    interest_ := (s.emee m).interest_.erase fd
    ready_ := (s.emee m).ready_.erase fd }

/-- The event of `ctlEx` in `interest_`, and whether it may be added. -/
def checkInterest (op : EvCtlAction) (m : M) (fd : Fd) : Code M (Bool × Bool) :=
  .guarded (.interest_mutex_ m) (.read fun s =>
    let found := decide (fd ∈ (s.emee m).interest_)
    (found, !(op = .Add && found && !(s.event fd).add_was_artificial_)))

/-- `interest_` and `ready_` behind a `ctl` of the event. -/
def updateInterest (op : EvCtlAction) (m : M) (fd : Fd) (found : Bool) : Code M Bool :=
  .guarded (.interest_mutex_ m) (
    match op with
    | .Add | .Mod => if found then pure true else insertInterest m fd
    | .Del => do
      -- `interest_` is seen only with its mutex, so it may as well change behind the other one's
      .guarded (.ready_mutex_ m) (.modify fun s =>
        if found then eraseBoth m fd s
        else s.setEmee m { s.emee m with ready_ := (s.emee m).ready_.erase fd })
      pure true)

def ctlEx (op : EvCtlAction) (m : M) (fd : Fd) (events : Evm) (forceEmEventCtlOnly : Bool) :
    Code M Bool := do
  let (eme_found_in_interest, may) ← checkInterest op m fd
  if may then
    let ctl := if forceEmEventCtlOnly ∨ fd.type = .EmEvReg then EmEvent.ctl S op m fd events
      else EmEventCtr.ctl S op m fd events
    if ← ctl then updateInterest op m fd eme_found_in_interest else pure false
  else pure false

def ctl (op : EvCtlAction) (m : M) (fd : Fd) (events : Evm) : Code M Bool := do
  if ← ctlEx S op m fd events false then
    setEvent fd ({ · with add_was_artificial_ := false })
    pure true
  else pure false

/-! ## Counters -/

/-- The event is no longer of interest; whether it was. -/
def renewCtlDel (fd : Fd) : Option M → Code M Bool
  | none => pure false
  | some m => do
    if ← findFdInInterest m fd then
      if ← ctlEx S .Del m fd {} true then pure true else .throw "EvCtlAction::Del failed"
    else pure false

/-- `renewEv` up to the point where `ev_` is null; whether the event was in `interest_`. -/
def renewDel (fd : Fd) (emee : Option M) : Code M Bool := do
  if (← event fd).ev_ then
    let ev_in_emee ← renewCtlDel S fd emee
    setEvent fd ({ · with ev_ := false })
    pure ev_in_emee
  else pure false

/-- `renewEv` behind `event_free`. -/
def renewAdd (fd : Fd) (emee : Option M) (old_flags : Evm) (ev_in_emee : Bool) :
    Code M Unit := do
  match emee, ev_in_emee with
  | some m, true =>
    if ← ctlEx S .Add m fd old_flags true then
      if (← event fd).ev_ then pure () else .throw "ev_ null"
    else .throw "EvCtlAction::Add failed"
  | _, _ => pure ()

/-- Whether `renewEv` has to activate the event. -/
def EmEvent.activates (e : EmEvent M) (type : EmEventType) : Bool :=
  e.flags_.read && e.counter_val_ > 0 ||
    type ≠ .EmEvTimer && e.flags_.write && e.counter_val_ < 0xfffffffffffffffe

def renewEv (fd : Fd) : Code M Unit :=
  .within (.renewEv fd) do
    let old_flags := (← event fd).flags_
    let emee ← getEventMethEpollEquivImpl S fd
    let ev_in_emee ← renewDel S fd emee
    renewAdd S fd emee old_flags ev_in_emee
    let e ← event fd
    if e.activates fd.type then
      if e.ev_ then event_active else .throw "ev_ null"

/-- The counter was readable, but no longer is. -/
def notReadable (fd : Fd) (old_counter_val : UInt64) : Code M Unit := do
  let e ← event fd
  if e.ev_ then
    if e.flags_.read then renewEv S fd
    else if fd.type ≠ .EmEvTimer ∧ e.flags_.write ∧ old_counter_val ≥ 0xfffffffffffffffe then
      event_active

/-- With `counter_val_mutex_` locked. -/
def resetCounterValMutexAlreadyLocked (fd : Fd) : Code M UInt64 := do
  let old_counter_val := (← event fd).counter_val_
  if old_counter_val = 0 then pure 0
  else
    setEvent fd ({ · with counter_val_ := 0 })
    notReadable S fd old_counter_val
    pure old_counter_val

def resetCounterVal (fd : Fd) : Code M UInt64 :=
  .guarded (.counter_val_mutex_ fd) (resetCounterValMutexAlreadyLocked S fd)

/-- `EmEventCtr::read`; whether it reads again.  A thread that waits on `cv_read_sptr_` is in
front of the end of the guard. -/
def EmEventCtr.read (fd : Fd) : Code M Bool :=
  .guarded (.counter_val_mutex_ fd) do
    if (← resetCounterValMutexAlreadyLocked S fd) ≠ 0 then pure false
    else pure (← event fd).blocking

/-- The counter has grown: it is no longer writable, or it was not readable before. -/
def grown (fd : Fd) (e : EmEvent M) (counter_val_ : UInt64) : Code M Unit := do
  if e.ev_ then
    if fd.type ≠ .EmEvTimer ∧ e.counter_val_ < 0xfffffffffffffffe ∧ e.flags_.write ∧
        counter_val_ ≥ 0xfffffffffffffffe then
      renewEv S fd
    else if e.flags_.read ∧ e.counter_val_ = 0 then event_active

/-- `EmEventCtr::writeProt`; whether it writes again.  Timers have no `cv_write_sptr_`. -/
def EmEventCtr.writeProt (fd : Fd) (val : UInt64) : Code M Bool :=
  if val = 0 ∨ val = 0xffffffffffffffff then pure false
  else .guarded (.counter_val_mutex_ fd) do
    let e ← event fd
    if val > 0xfffffffffffffffe - e.counter_val_ then
      pure (e.blocking && fd.type ≠ .EmEvTimer)
    else
      setEvent fd ({ · with counter_val_ := e.counter_val_ + val })
      grown S fd e (e.counter_val_ + val)
      pure false

/-! ## `settime` -/

/-- What `settime` does about `event_meth_epoll_equiv_impl_`. -/
def settimeEmee (fd : Fd) : Option M → Code M (Option M)
  | none => do pure (← event fd).event_meth_epoll_equiv_impl_
  | some m => do
    match (← event fd).event_meth_epoll_equiv_impl_ with
    | none =>
      setEvent fd ({ · with event_meth_epoll_equiv_impl_ := some m })
      pure (some m)
    | some prior_emee =>
      if prior_emee = m then pure (some m)
      else .throw "EmEventTmrFd EMEE cannot be changed"

/-- `EmEvent::settime`. -/
def EmEvent.settime (fd : Fd) (emee : Option M) : Code M Unit := do
  let e ← event fd
  if e.ev_ ∧ e.event_meth_epoll_equiv_impl_.isSome then
    .throw "trying to settime after ev_ created and EMEE assigned"
  else
    let _ ← settimeEmee fd emee

/-- `EmEventTmrFd::settime`. -/
def EmEventTmrFd.settime (fd : Fd) (running : Bool) (emee : Option M) : Code M Unit := do
  let _ ← resetCounterVal S fd
  let emee ← settimeEmee fd emee
  if running then
    match emee with
    | none => setEvent fd ({ · with add_was_artificial_ := false })
    | some m =>
      if ← ctlEx S .Add m fd (← event fd).flags_ true then
        setEvent fd ({ · with add_was_artificial_ := true })
      else .throw "EvCtlAction::Add failed"
  else if (← event fd).ev_ then
    match emee with
    | none => pure ()
    | some m =>
      if ← ctlEx S .Del m fd {} true then
        setEvent fd ({ · with add_was_artificial_ := false })
      else .throw "EvCtlAction::Del failed"

/-! ## `closeEvent` -/

/-- `EmEvent::close`. -/
def EmEvent.close (fd : Fd) : Code M Bool := do
  let e ← event fd
  setEvent fd ({ · with ev_ := false, actual_fd := false })
  if e.ev_ ∨ e.actual_fd then pure ((← .ask) = .ok) else pure true

/-- The event without its libevent event, deleted. -/
def deleteEvent (fd : Fd) (s : State M) : State M :=
  s.setEvent fd { s.event fd with alive := false, ev_ := false, actual_fd := false }

/-- With both sets locked. -/
def closeBoth (m : M) (fd : Fd) : Code M Unit := do
  if ← EmEvent.close fd then .modify fun s => deleteEvent fd (eraseBoth m fd s)

/-- Whether the event was of interest. -/
def closeInterest (m : M) (fd : Fd) : Code M Bool :=
  .guarded (.interest_mutex_ m) do
    if ← isInterest m fd then
      .guarded (.ready_mutex_ m) (closeBoth m fd)
      pure true
    else pure false

/-- `closeEvent` of an event with an `EventMethEpollEquiv`. -/
def closeAttached (fd : Fd) : Option M → Code M Bool
  | none => pure false
  | some m => .guarded .emee_cptr_set_mutex_ (
    if m ∈ S.emee_cptr_set_ then closeInterest m fd else pure false)

def closeEvent (fd : Fd) : Code M Unit := do
  let emeei ← getEventMethEpollEquivImpl S fd
  if ← closeAttached S fd emeei then pure ()
  else if ← EmEvent.close fd then .modify (deleteEvent fd)

/-! ## Callbacks -/

/-- `EmEvent::handleEventCallback`. -/
def EmEvent.handleEventCallback (fd : Fd) (timeout : Bool) : Code M Unit := do
  if fd.type = .EmEvTimer ∧ timeout then
    .within (.expire fd) do
      let _ ← EmEventCtr.writeProt S fd 1

def addEventToReadyInterestAlrdyLocked (m : M) (fd : Fd) : Code M Unit := do
  if ← isInterest m fd then
    .guarded (.ready_mutex_ m) (.modify fun s =>
      s.setEmee m { s.emee m with ready_ := insert fd (s.emee m).ready_ })

/-- `EventMethEpollEquivImpl::handleEventCallback`. -/
def handleEventCallback (m : M) (fd : Fd) (timeout : Bool) : Code M Unit :=
  .guarded (.interest_mutex_ m) do
    if ← isInterest m fd then
      EmEvent.handleEventCallback S fd timeout
      addEventToReadyInterestAlrdyLocked m fd

def eventCallbackFn (fd : Fd) (timeout : Bool) : Code M Unit := do
  match ← findEmEventInAnInterestSet S fd with
  | none => pure ()
  | some m => handleEventCallback S m fd timeout

/-! ## `poll` -/

def lockInterestMutex (m : M) : Code M Unit :=
  .guarded (.int_mut_locked_by_get_ready_em_events_mutex_ m) do
    .modify fun s => s.setEmee m { s.emee m with int_mut_locked_by_get_ready_em_events_ := true }
    .lock (.interest_mutex_ m) (pure ())

def unlockInterestMutexIfLocked (m : M) : Code M Unit :=
  .guarded (.int_mut_locked_by_get_ready_em_events_mutex_ m) do
    if ← .read fun s => (s.emee m).int_mut_locked_by_get_ready_em_events_ then
      .modify fun s => s.setEmee m { s.emee m with
        int_mut_locked_by_get_ready_em_events_ := false
        ready_evm_events_out := ∅ }
      .unlock (.interest_mutex_ m) (pure ())

/-- Whether `loop_timer_eme` was the only ready event. -/
def removeSpecialTimerFromInterestAndReady (m : M) (loop_timer_eme : Fd) : Code M Bool :=
  .guarded (.interest_mutex_ m) (.guarded (.ready_mutex_ m) (
    .act (eraseBoth m loop_timer_eme) fun s =>
      pure ((s.emee m).ready_ = {loop_timer_eme})))

def takeReady (m : M) : Code M Unit :=
  .guarded (.ready_mutex_ m) (.modify fun s => s.setEmee m { s.emee m with
    ready_evm_events_out := (s.emee m).ready_
    ready_ := ∅ })

/-- The events that are not persistent are no longer of interest. -/
def prune (m : M) : Code M Unit :=
  .modify fun s => s.setEmee m { s.emee m with
    interest_ := (s.emee m).interest_.filter fun fd =>
      fd ∉ (s.emee m).ready_evm_events_out ∨ (s.event fd).flags_.persist }

/-- The loop timer of a poll, which `shared_ptr` deletes. -/
def dropTimer (loop_timer_eme : Option Fd) : Code M Unit :=
  match loop_timer_eme with
  | none => pure ()
  | some fd => .modify (deleteEvent fd)

/-- `poll` behind a loop that has had events. -/
def finishPoll (m : M) : Code M (Option (Proc M)) := do
  lockInterestMutex m
  takeReady m
  prune m
  unlockInterestMutexIfLocked m
  pure none

/-- `EmEvent::make_new` of the loop timer. -/
def newTimer : Code M Fd :=
  .act (fun s => s.alloc .EmEvReg { loop_timer := true }) fun s => pure ⟨.EmEvReg, s.next⟩

/-- `poll` up to `event_base_loop`. -/
def poll (m : M) (timed : Bool) : Code M (Option (Proc M)) := do
  if timed then
    let loop_timer_eme ← newTimer
    match ← (ctl S .Add m loop_timer_eme {}).attempt with
    | some true => pure (some (.eventLoop m (some loop_timer_eme)))
    | _ =>
      -- "Failed to add loop_timer_eme"
      dropTimer (some loop_timer_eme)
      unlockInterestMutexIfLocked m
      pure none
  else pure (some (.eventLoop m none))

def eventLoop (m : M) (loop_timer_eme : Option Fd) : Code M (Option (Proc M)) := do
  match ← .within (.event_base_loop m loop_timer_eme.isSome) .ask with
  | .callback fd timeout =>
    eventCallbackFn S fd timeout
    pure (some (.eventLoop m loop_timer_eme))
  | .error =>
    dropTimer loop_timer_eme
    pure (some (.poll m loop_timer_eme.isSome))
  | .idle =>
    dropTimer loop_timer_eme
    unlockInterestMutexIfLocked m
    pure none
  | .ok =>
    match loop_timer_eme with
    | none => finishPoll m
    | some fd =>
      let only ← removeSpecialTimerFromInterestAndReady m fd
      dropTimer (some fd)
      if only then
        unlockInterestMutexIfLocked m
        pure none
      else finishPoll m

/-! ## What the threads call -/

/-- A call that ends where its program does. -/
def once {α : Type} (code : Code M α) : Code M (Option (Proc M)) := do
  let _ ← code
  pure none

/-- A call that is made again where its program says so. -/
def again (call : Proc M) (code : Code M Bool) : Code M (Option (Proc M)) := do
  if ← code then pure (some call) else pure none

def Proc.body : Proc M → Code M (Option (Proc M))
  | .em_event_new type flags actual_fd blocking initval emee =>
    once (.modify fun s => s.alloc type
      { flags_ := flags
        actual_fd
        blocking
        counter_val_ := if type = .EmEvEventFd then initval else 0
        event_meth_epoll_equiv_impl_ := if type = .EmEvTimer then emee else none })
  | .ctl op m fd events => once (EpollEquiv.ctl S op m fd events)
  | .read fd =>
    if fd.type = .EmEvReg then pure none else again (.read fd) (EmEventCtr.read S fd)
  | .write fd val =>
    if fd.type = .EmEvEventFd then again (.write fd val) (EmEventCtr.writeProt S fd val)
    else pure none
  | .settime fd running emee =>
    once (if fd.type = .EmEvTimer then EmEventTmrFd.settime S fd running emee
      else EmEvent.settime fd emee)
  | .closeEvent fd => once (EpollEquiv.closeEvent S fd)
  | .poll m timed => EpollEquiv.poll S m timed
  | .eventLoop m loop_timer_eme => EpollEquiv.eventLoop S m loop_timer_eme

def Proc.name : Proc M → Option (Call M)
  | .em_event_new .. => some .em_event_new
  | .ctl _ m fd _ => some (.ctl m fd)
  | .read fd => some (.read fd)
  | .write fd _ => some (.write fd)
  | .settime fd _ emee => some (.settime fd emee)
  | .closeEvent fd => some (.closeEvent fd)
  | .poll m _ => some (.poll m)
  | .eventLoop .. => none

def procs : Procs (Mutex M) (Call M) Answer (State M) (Proc M) := ⟨Proc.body S, Proc.name⟩

/-- No thread has called anything. -/
def start (T : Type) : Config T (Mutex M) (Call M) Answer (State M) (Proc M) :=
  ⟨⟨.init, fun _ => none, fun _ => []⟩, fun _ => none⟩

end Pistache.Eventmeth.EpollEquiv
