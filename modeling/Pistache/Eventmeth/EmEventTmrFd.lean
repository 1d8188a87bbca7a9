import Pistache.Eventmeth.EmEventFd

/-!
# Timers over libevent

An `EmEventTmrFd` with its `EventMethEpollEquiv`: `settime`, `ctl`, `read`, the callback and
what `getReadyEmEvents` does with it.  An operation is a program over the state of the timer that
may throw, and leaves what it has done so far where it does.

* `Libevent` — libevent's events, as documented.
* `EmEventTmrFd.op` — the operations.
-/

set_option autoImplicit false

namespace Pistache.Eventmeth

/-! ## libevent -/

/-- The `EVM_` bits a registration can carry. -/
structure Evm where
  read : Bool := false
  write : Bool := false
  closed : Bool := false
  persist : Bool := false
  et : Bool := false
  deriving DecidableEq, Repr

structure Timeval where
  tv_sec : Int := 0
  tv_usec : Int := 0
  deriving DecidableEq, Repr

/-- The microseconds of a `timeval`. -/
def Timeval.micros (tv : Timeval) : Int := tv.tv_sec * 1000000 + tv.tv_usec

/-- What `setPriorTv` and `EmEvent::ctl` make of a number of milliseconds. -/
def Timeval.ofMillis (count : Int) : Timeval :=
  if count < 1000 then { tv_usec := count * 1000 } else { tv_sec := count / 1000 }

/-- The events of libevent.  `callback` is what libevent does to an event when it calls back for
its timeout, or because the event is active. -/
structure Libevent where
  Ev : Type
  /-- `EV_FEATURE_ET` and `EV_FEATURE_EARLY_CLOSE` -/
  et : Bool
  early_close : Bool
  event_new : Evm → Ev
  event_add : Ev → Option Timeval → Ev
  event_del : Ev → Ev
  event_active : Ev → Ev
  callback : Ev → Bool → Ev
  /-- the pending timeout -/
  timeout : Ev → Option Timeval
  active : Ev → Bool
  timeout_add : ∀ ev tv, timeout (event_add ev (some tv)) = some tv
  timeout_del : ∀ ev, timeout (event_del ev) = none

namespace Libevent

/-- An event of `documented`. -/
structure Plain where
  flags : Evm
  timeout : Option Timeval := none
  active : Bool := false
  deriving DecidableEq, Repr

/-- An event without `EV_PERSIST` is no longer pending when it is called back. -/
def Plain.callback (ev : Plain) (expired : Bool) : Plain :=
  if ev.flags.persist then { ev with active := ev.active && expired }
  else { ev with timeout := none, active := ev.active && expired }

/-- What the documentation says, on Linux. -/
def documented : Libevent where
  Ev := Plain
  et := true
  early_close := true
  event_new flags := { flags }
  event_add ev tv := { ev with timeout := tv <|> ev.timeout }
  event_del ev := { ev with timeout := none, active := false }
  event_active ev := { ev with active := true }
  callback := Plain.callback
  timeout := Plain.timeout
  active := Plain.active
  timeout_add _ _ := rfl
  timeout_del _ := rfl

end Libevent

/-! ## The timer -/

/-- An `EmEventTmrFd`.  There is one `EventMethEpollEquiv`: `event_meth_epoll_equiv_impl_` says
whether the timer is attached to it, `interested` and `ready` that the timer is in its `interest_`
and in its `ready_`.  `prior_tv_` is what `prior_tv_cptr_` points to, `blocking` stands for
`cv_read_sptr_`, and `held` says that a read waits with `counter_val_mutex_` locked. -/
structure EmEventTmrFd (L : Libevent) where
  ev_ : Option L.Ev := none
  flags_ : Evm := { read := true }
  add_was_artificial_ : Bool := false
  event_meth_epoll_equiv_impl_ : Bool
  prior_tv_ : Option Timeval := none
  counter_val_ : UInt64 := 0
  blocking : Bool
  held : Bool := false
  interested : Bool := false
  ready : Bool := false

/-- What ends an operation before it returns. -/
inductive Stop where
  | thrown (what : String)
  /-- the thread waits for `counter_val_mutex_`, or with it for the count -/
  | waits
  /-- libevent has been handed a null pointer -/
  | crash
  deriving DecidableEq, Repr

inductive EvCtlAction where
  | Add
  | Mod
  | Del
  deriving DecidableEq, Repr

namespace EmEventTmrFd

variable {L : Libevent}

/-- A program over the state of a timer. -/
abbrev Prog (L : Libevent) := EStateM Stop (EmEventTmrFd L)

def lockCounter : Prog L Unit := do
  if (← get).held then throw .waits

/-- `EmEvent::setFlags`. -/
def setFlags (flgs : Evm) : Prog L Unit := do
  let fd ← get
  if fd.event_meth_epoll_equiv_impl_ ∧ flgs.closed ∧ ¬L.early_close then
    throw (.thrown "No early close")
  set { fd with flags_ := flgs }

/-- `getFlagsToActuallyUseWithLibEvEventNew`. -/
def flagsToUse (L : Libevent) (flags : Evm) : Evm := { flags with et := flags.et && L.et }

/-- What `EmEvent::ctl` does to `ev_` before it adds it: it makes a first event, or another one
where the flags change.  A timer has no descriptor, so a first event for writing is refused. -/
def prepareEv (events : Evm) : Prog L Int := do
  match (← get).ev_ with
  | none =>
    setFlags events
    if (← get).flags_.write then return -1
    modify fun fd => { fd with ev_ := some (L.event_new (flagsToUse L fd.flags_)) }
    return 0
  | some _ =>
    if events ≠ {} ∧ events ≠ (← get).flags_ then
      modify fun fd => { fd with ev_ := some (L.event_new (flagsToUse L events)) }
      setFlags events
    return 0

/-- The call of libevent in `EmEvent::ctl`. -/
def addOrDel (op : EvCtlAction) (tv : Option Timeval) : Prog L Unit := do
  let fd ← get
  match fd.ev_ with
  | none => throw .crash
  | some ev =>
    match op with
    | .Add | .Mod => set { fd with ev_ := some (L.event_add ev tv) }
    | .Del => set { fd with ev_ := some (L.event_del ev) }

/-- `EmEvent::ctl`, with the one `EventMethEpollEquiv` there is. -/
def emEventCtl (op : EvCtlAction) (events : Evm) (timeval : Option Int) : Prog L Int := do
  modify fun fd => { fd with event_meth_epoll_equiv_impl_ := true }
  if op = .Add ∨ op = .Mod then
    if (← prepareEv events) ≠ 0 then return -1
  modify fun fd => { fd with prior_tv_ := timeval.map Timeval.ofMillis <|> fd.prior_tv_ }
  addOrDel op (← get).prior_tv_
  return 0

/-- `EmEventCtr::ctl`: a count that the new flags make readable activates the event. -/
def emEventCtrCtl (op : EvCtlAction) (events : Evm) (timeval : Option Int) : Prog L Int := do
  let old ← get
  let res ← emEventCtl op events timeval
  if res ≠ 0 then return res
  if (← get).ev_.isSome then
    lockCounter
    let fd ← get
    if fd.flags_.read ∧ 0 < fd.counter_val_ ∧ (old.ev_.isNone ∨ ¬old.flags_.read) then
      set { fd with ev_ := fd.ev_.map L.event_active }
  return res

/-- `EventMethEpollEquivImpl::ctlEx`. -/
def ctlEx (op : EvCtlAction) (events : Evm) (timeval : Option Int)
    (forceEmEventCtlOnly : Bool) : Prog L Int := do
  let fd ← get
  if op = .Add ∧ fd.interested ∧ ¬fd.add_was_artificial_ then return -1
  let res ← if forceEmEventCtlOnly then emEventCtl op events timeval
    else emEventCtrCtl op events timeval
  if res = 0 then
    match op with
    | .Add | .Mod => modify fun fd => { fd with interested := true }
    | .Del => modify fun fd => { fd with interested := false, ready := false }
  return res

/-- `EventMethEpollEquivImpl::ctl`. -/
def ctl (op : EvCtlAction) (events : Evm) (timeval : Option Int) : Prog L Int := do
  let res ← ctlEx op events timeval false
  if res = 0 then modify fun fd => { fd with add_was_artificial_ := false }
  return res

/-- The first half of `EmEventCtr::renewEv`: `ev_` is taken out of `interest_`, where it is in
there, and freed. -/
def releaseEv : Prog L Bool := do
  let fd ← get
  if fd.ev_.isNone then return false
  let ev_in_emee := fd.event_meth_epoll_equiv_impl_ && fd.interested
  if ev_in_emee then
    if (← ctlEx .Del {} none true) ≠ 0 then throw (.thrown "EvCtlAction::Del failed")
  modify fun fd => { fd with ev_ := none }
  return ev_in_emee

/-- `EmEventCtr::renewEv`. -/
def renewEv : Prog L Unit := do
  let old_flags := (← get).flags_
  if ← releaseEv then
    if (← ctlEx .Add old_flags none true) ≠ 0 then throw (.thrown "EvCtlAction::Add failed")
    if (← get).ev_.isNone then throw (.thrown "ev_ null")
  let fd ← get
  if fd.flags_.read ∧ 0 < fd.counter_val_ then
    match fd.ev_ with
    | none => throw (.thrown "ev_ null")
    | some ev => set { fd with ev_ := some (L.event_active ev) }

/-- `EmEventCtr::resetCounterValMutexAlreadyLocked`. -/
def resetCounterVal : Prog L UInt64 := do
  let old_counter_val := (← get).counter_val_
  if old_counter_val ≠ 0 then
    modify fun fd => { fd with counter_val_ := 0 }
    let fd ← get
    if fd.ev_.isSome ∧ fd.flags_.read then renewEv
  return old_counter_val

/-- The second half of `EmEventTmrFd::settime`. -/
def startOrStop (new_timeval : Option Int) : Prog L Int := do
  let fd ← get
  if new_timeval.getD 0 ≠ 0 then
    if ¬fd.event_meth_epoll_equiv_impl_ then
      -- the timer will start when it is registered
      set { fd with add_was_artificial_ := false }
      return 0
    if (← ctlEx .Add fd.flags_ none true) ≠ 0 then throw (.thrown "EvCtlAction::Add failed")
    modify fun fd => { fd with add_was_artificial_ := true }
  else if fd.ev_.isSome ∧ fd.event_meth_epoll_equiv_impl_ then
    if (← ctlEx .Del {} none true) ≠ 0 then throw (.thrown "EvCtlAction::Del failed")
    modify fun fd => { fd with add_was_artificial_ := false }
  return 0

/-- `EmEventTmrFd::settime`, `emee` that it is handed the `EventMethEpollEquiv`. -/
def settime (new_timeval : Option Int) (emee : Bool) : Prog L Int := do
  lockCounter
  let _ ← resetCounterVal
  modify fun fd => { fd with
    prior_tv_ := new_timeval.map Timeval.ofMillis
    event_meth_epoll_equiv_impl_ := fd.event_meth_epoll_equiv_impl_ || emee }
  startOrStop new_timeval

/-- `EmEventCtr::read`. -/
def read : Prog L Outcome := do
  lockCounter
  let old_counter_val ← resetCounterVal
  if old_counter_val ≠ 0 then return .value old_counter_val
  if (← get).blocking then
    modify fun fd => { fd with held := true }
    throw .waits
  return .EAGAIN

/-- `EmEventCtr::writeProt(1)` of a timer. -/
def writeProt : Prog L Unit := do
  lockCounter
  let fd ← get
  if fd.counter_val_ < maxCount then
    set { fd with
      counter_val_ := fd.counter_val_ + 1
      ev_ := if fd.flags_.read ∧ fd.counter_val_ = 0 then fd.ev_.map L.event_active else fd.ev_ }

/-- `EmEvent::deactivateAfterTriggerIfNeeded`. -/
def deactivateAfterTriggerIfNeeded : Prog L Unit :=
  modify fun fd => { fd with ev_ := fd.ev_.map fun ev =>
    if ¬fd.flags_.persist then L.event_del ev
    else if fd.flags_.et then L.event_add (L.event_del ev) fd.prior_tv_
    else ev }

/-- `eventCallbackFn` and what it calls: an event that is not in `interest_` is left alone. -/
def handleEventCallback (expired : Bool) : Prog L Unit := do
  if (← get).interested then
    if expired then writeProt
    if ¬L.et then deactivateAfterTriggerIfNeeded
    modify fun fd => { fd with ready := true }

/-- libevent calls back. -/
def deliver (expired : Bool) : Prog L Unit := do
  modify fun fd => { fd with ev_ := fd.ev_.map (L.callback · expired) }
  handleEventCallback expired

/-- What `getReadyEmEventsHelper` does with the timer after `event_base_loop`. -/
def takeReady (dispatch_res : Int) : Prog L Unit := do
  let fd ← get
  if 0 ≤ dispatch_res ∧ dispatch_res ≠ 1 ∧ fd.ready then
    set { fd with ready := false, interested := fd.interested && fd.flags_.persist }

/-! ## Runs -/

/-- The timeout that is pending. -/
def pending (fd : EmEventTmrFd L) : Option Timeval := fd.ev_.bind L.timeout

/-- The event is active. -/
def isActive (fd : EmEventTmrFd L) : Bool := fd.ev_.any L.active

inductive Event where
  | settime (new_timeval : Option Int) (emee : Bool)
  | ctl (op : EvCtlAction) (events : Evm) (timeval : Option Int)
  /-- libevent calls back for the timeout, or for the activation -/
  | expire
  | activated
  | poll (dispatch_res : Int)
  | read
  deriving DecidableEq, Repr

/-- What an operation returns. -/
inductive Reply where
  | none
  | res (r : Int)
  | read (outcome : Outcome)
  deriving DecidableEq, Repr

/-- The operations. -/
def op : Event → Prog L Reply
  | .settime new_timeval emee => .res <$> settime new_timeval emee
  | .ctl op events timeval => .res <$> ctl op events timeval
  | .expire => do
    if (← get).pending.isSome then deliver true
    return .none
  | .activated => do
    if (← get).isActive then deliver false
    return .none
  | .poll dispatch_res => do
    takeReady dispatch_res
    return .none
  | .read => .read <$> read

/-- `EmEventTmrFd::make_new`, with `emee` or without. -/
def make_new (emee blocking : Bool) : EmEventTmrFd L where
  event_meth_epoll_equiv_impl_ := emee
  blocking := blocking

end EmEventTmrFd

end Pistache.Eventmeth
