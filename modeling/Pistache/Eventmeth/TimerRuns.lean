import Pistache.Eventmeth.EmEventTmrFd
import Pistache.Lib.Machine
import Pistache.Lib.StateExcept

/-!
# What a timer does

* `settime_starts` — where `settime` with a positive duration finds nothing in its way, it leaves
  that timeout pending.
* `settime_stops` — without a duration it leaves none, whatever state the timer is in.
* `behaves` — a run in which nothing is in the way of `settime`, `read` and the expiries is one of
  a timer descriptor.
-/

set_option autoImplicit false

namespace Pistache.Eventmeth.EmEventTmrFd

open StateExcept

variable {L : Libevent} {fd : EmEventTmrFd L}

/-! ## `ctlEx` and `renewEv` -/

/-- `EVM_CLOSED` is set only where libevent has it. -/
def FlagsOk (fd : EmEventTmrFd L) : Prop := fd.flags_.closed → L.early_close

theorem ctlEx_del {ev : L.Ev} (h : fd.ev_ = some ev) :
    (ctlEx .Del {} none true).run fd = .ok 0
      { fd with
        event_meth_epoll_equiv_impl_ := true, ev_ := some (L.event_del ev)
        interested := false, ready := false } := by
  simp only [ctlEx, emEventCtl, addOrDel, h, EStateM.run_bind, EStateM.run_get,
    EStateM.run_modify, EStateM.run_set, EStateM.run_pure, run_ite]
  simp

/-- The event that `EmEvent::ctl` adds. -/
def prepared (fd : EmEventTmrFd L) : L.Ev :=
  fd.ev_.getD (L.event_new (flagsToUse L fd.flags_))

theorem setFlags_run (hflags : FlagsOk fd) : (setFlags fd.flags_).run fd = .ok () fd := by
  have hclosed : ¬(fd.event_meth_epoll_equiv_impl_ ∧ fd.flags_.closed ∧ ¬L.early_close) :=
    fun hand => hand.2.2 (hflags hand.2.1)
  simp only [setFlags, EStateM.run_bind, EStateM.run_get, if_neg hclosed, EStateM.run_set]

theorem prepareEv_run (fd : EmEventTmrFd L) (hflags : FlagsOk fd) (h : fd.ev_ = none → ¬fd.flags_.write) :
    (prepareEv fd.flags_).run fd = .ok 0 { fd with ev_ := some fd.prepared } := by
  cases hev : fd.ev_ with
  | some ev =>
    have hsame : { fd with ev_ := some ev } = fd := by rw [← hev]
    have hne : ¬(fd.flags_ ≠ {} ∧ fd.flags_ ≠ fd.flags_) := fun hand => hand.2 rfl
    simp only [prepareEv, EStateM.run_bind, EStateM.run_get, EStateM.run_pure, hev, if_neg hne,
      prepared, Option.getD_some, hsame]
  | none =>
    simp only [prepareEv, EStateM.run_bind, EStateM.run_get, EStateM.run_modify,
      EStateM.run_pure, hev, setFlags_run hflags, if_neg (h hev), prepared, Option.getD_none]

/-- A first event for writing is refused. -/
theorem prepareEv_refused (fd : EmEventTmrFd L) (hflags : FlagsOk fd) (hev : fd.ev_ = none) (hwrite : fd.flags_.write) :
    (prepareEv fd.flags_).run fd = .ok (-1) fd := by
  simp only [prepareEv, EStateM.run_bind, EStateM.run_get, EStateM.run_pure, hev,
    setFlags_run hflags, if_pos hwrite]

/-- The timer as `ctlEx` attaches it. -/
def attached (fd : EmEventTmrFd L) : EmEventTmrFd L :=
  { fd with event_meth_epoll_equiv_impl_ := true }

theorem ctlEx_add (fd : EmEventTmrFd L) (hflags : FlagsOk fd) (h : fd.ev_ = none → ¬fd.flags_.write)
    (hadd : fd.interested → fd.add_was_artificial_) :
    (ctlEx .Add fd.flags_ none true).run fd = .ok 0
      { fd.attached with
        ev_ := some (L.event_add fd.prepared fd.prior_tv_), interested := true } := by
  have hfound : ¬(fd.interested ∧ ¬fd.add_was_artificial_) := fun hand => hand.2 (hadd hand.1)
  have hprepare : (prepareEv fd.flags_).run fd.attached = .ok 0 _ :=
    prepareEv_run fd.attached hflags h
  simp only [attached] at hprepare
  simp only [ctlEx, emEventCtl, addOrDel, EStateM.run_bind, EStateM.run_get, EStateM.run_modify,
    EStateM.run_pure, EStateM.run_set, true_and, true_or, if_true, if_neg hfound, hprepare,
    ne_eq, not_true_eq_false, if_false, Option.map_none]
  rfl

theorem ctlEx_refused (fd : EmEventTmrFd L) (hflags : FlagsOk fd) (hev : fd.ev_ = none) (hwrite : fd.flags_.write)
    (hadd : ¬fd.interested) :
    (ctlEx .Add fd.flags_ none true).run fd = .ok (-1) fd.attached := by
  have hfound : ¬(fd.interested ∧ ¬fd.add_was_artificial_) := fun hand => hadd hand.1
  have hprepare : (prepareEv fd.flags_).run fd.attached = .ok (-1) fd.attached :=
    prepareEv_refused fd.attached hflags hev hwrite
  simp only [attached] at hprepare
  simp only [ctlEx, emEventCtl, EStateM.run_bind, EStateM.run_get, EStateM.run_modify,
    EStateM.run_pure, run_ite, true_and, true_or, if_true, if_neg hfound, hprepare]
  rfl

/-- `renewEv` finds the event in `interest_`. -/
def InEmee (fd : EmEventTmrFd L) : Prop := fd.event_meth_epoll_equiv_impl_ ∧ fd.interested

theorem releaseEv_in {ev : L.Ev} (hev : fd.ev_ = some ev) (h : fd.InEmee) :
    releaseEv.run fd = .ok true
      { fd with ev_ := none, interested := false, ready := false } := by
  obtain ⟨hattached, hin⟩ := h
  have hdel := ctlEx_del hev
  simp only [releaseEv, EStateM.run_bind, EStateM.run_get, EStateM.run_modify,
    EStateM.run_pure, hev, hdel, hattached, hin, Bool.and_self, if_true, ne_eq, not_true_eq_false,
    if_false, Option.isNone_some, Bool.false_eq_true]

theorem releaseEv_out {ev : L.Ev} (hev : fd.ev_ = some ev) (h : ¬fd.InEmee) :
    releaseEv.run fd = .ok false { fd with ev_ := none } := by
  have hout : (fd.event_meth_epoll_equiv_impl_ && fd.interested) = false := by
    simpa [InEmee] using h
  simp only [releaseEv, EStateM.run_bind, EStateM.run_get, EStateM.run_modify, EStateM.run_pure,
    hev, hout, if_false, Option.isNone_some, Bool.false_eq_true]

section Renewal

variable (fd) {ev : L.Ev} (hev : fd.ev_ = some ev)
include hev

theorem renewEv_refused (hflags : FlagsOk fd) (h : fd.InEmee) (hwrite : fd.flags_.write) :
    renewEv.run fd = .error (.thrown "EvCtlAction::Add failed")
      { fd with ev_ := none, interested := false, ready := false } := by
  have hadd := ctlEx_refused
    { fd with ev_ := none, interested := false, ready := false }
    hflags rfl hwrite (fun h => nomatch h)
  simp only [renewEv, EStateM.run_bind, EStateM.run_get, releaseEv_in hev h, if_true, hadd,
    attached]
  rw [h.1]
  rfl

variable (hzero : fd.counter_val_ = 0)
include hzero

theorem renewEv_out (h : ¬fd.InEmee) : renewEv.run fd = .ok () { fd with ev_ := none } := by
  have hnot : ¬(fd.flags_.read ∧ 0 < fd.counter_val_) := by simp [hzero]
  simp only [renewEv, EStateM.run_bind, EStateM.run_get, EStateM.run_pure, releaseEv_out hev h,
    if_false, Bool.false_eq_true, if_neg hnot]

theorem renewEv_in (hflags : FlagsOk fd) (h : fd.InEmee) (hwrite : ¬fd.flags_.write) :
    renewEv.run fd = .ok ()
      { fd with
        ev_ := some (L.event_add (L.event_new (flagsToUse L fd.flags_)) fd.prior_tv_)
        ready := false } := by
  have hnot : ¬(fd.flags_.read ∧ 0 < fd.counter_val_) := by simp [hzero]
  have hadd := ctlEx_add
    { fd with ev_ := none, interested := false, ready := false }
    hflags (fun _ => hwrite) (fun h => nomatch h)
  simp only [renewEv, EStateM.run_bind, EStateM.run_get, EStateM.run_pure, releaseEv_in hev h,
    if_true, hadd, attached, ne_eq, not_true_eq_false, if_false, Option.isNone_some,
    Bool.false_eq_true, if_neg hnot]
  rw [h.1, h.2]
  rfl

end Renewal

/-- Setting the count back to zero renews the event. -/
def Renews (fd : EmEventTmrFd L) : Prop :=
  fd.counter_val_ ≠ 0 ∧ fd.ev_.isSome ∧ fd.flags_.read

theorem resetCounterVal_same (h : ¬fd.Renews) :
    resetCounterVal.run fd = .ok fd.counter_val_ { fd with counter_val_ := 0 } := by
  by_cases hzero : fd.counter_val_ = 0
  · have hsame : { fd with counter_val_ := 0 } = fd := by rw [← hzero]
    simp only [resetCounterVal, EStateM.run_bind, EStateM.run_get, EStateM.run_pure, hzero, ne_eq,
      not_true_eq_false, if_false, hsame]
  · have hnot : ¬(fd.ev_.isSome ∧ fd.flags_.read) := fun hand => h ⟨hzero, hand⟩
    simp only [resetCounterVal, EStateM.run_bind, EStateM.run_get, EStateM.run_modify,
      EStateM.run_pure, hzero, ne_eq, not_false_eq_true, if_true, if_neg hnot]

theorem resetCounterVal_renews (h : fd.Renews) :
    resetCounterVal.run fd =
      match renewEv.run { fd with counter_val_ := 0 } with
      | .ok _ fd' => .ok fd.counter_val_ fd'
      | .error stop fd' => .error stop fd' := by
  obtain ⟨hzero, hrenew⟩ := h
  simp only [resetCounterVal, EStateM.run_bind, EStateM.run_get, EStateM.run_modify,
    EStateM.run_pure, hzero, ne_eq, not_false_eq_true, if_true, if_pos hrenew]
  cases renewEv.run { fd with counter_val_ := 0 } <;> rfl

/-- The renewal is refused: the event is there for writing too, and a timer has no descriptor. -/
def Refused (fd : EmEventTmrFd L) : Prop := fd.Renews ∧ fd.flags_.write ∧ fd.InEmee

theorem resetCounterVal_run (hflags : FlagsOk fd) (h : ¬fd.Refused) :
    ∃ ev ready, resetCounterVal.run fd = .ok fd.counter_val_
        { fd with counter_val_ := 0, ev_ := ev, ready := ready } ∧
      (¬fd.Renews → ev = fd.ev_) := by
  by_cases hrenews : fd.Renews
  · obtain ⟨ev, hev⟩ := Option.isSome_iff_exists.1 hrenews.2.1
    rw [resetCounterVal_renews hrenews]
    by_cases hin : fd.InEmee
    · have hwrite : ¬fd.flags_.write := fun hwrite => h ⟨hrenews, hwrite, hin⟩
      rw [renewEv_in { fd with counter_val_ := 0 } hev rfl hflags hin hwrite]
      exact ⟨_, _, rfl, fun hnot => absurd hrenews hnot⟩
    · rw [renewEv_out { fd with counter_val_ := 0 } hev rfl hin]
      exact ⟨_, _, rfl, fun hnot => absurd hrenews hnot⟩
  · exact ⟨fd.ev_, fd.ready, resetCounterVal_same hrenews, fun _ => rfl⟩

theorem resetCounterVal_refused (hflags : FlagsOk fd) (h : fd.Refused) :
    resetCounterVal.run fd = .error (.thrown "EvCtlAction::Add failed")
      { fd with counter_val_ := 0, ev_ := none, interested := false, ready := false } := by
  obtain ⟨hrenews, hwrite, hin⟩ := h
  obtain ⟨ev, hev⟩ := Option.isSome_iff_exists.1 hrenews.2.1
  rw [resetCounterVal_renews hrenews,
    renewEv_refused { fd with counter_val_ := 0 } hev hflags hin hwrite]

/-! ## `settime` -/

theorem lockCounter_run (hheld : ¬fd.held) : lockCounter.run fd = .ok () fd := by
  simp only [lockCounter, EStateM.run_bind, EStateM.run_get, if_neg hheld, EStateM.run_pure]

/-- The timer with what `settime` sets before it adds or deletes the event. -/
def withTime (fd : EmEventTmrFd L) (new_timeval : Option Int) (emee : Bool) : EmEventTmrFd L :=
  { fd with
    prior_tv_ := new_timeval.map Timeval.ofMillis
    event_meth_epoll_equiv_impl_ := fd.event_meth_epoll_equiv_impl_ || emee }

theorem settime_run {fd' : EmEventTmrFd L} {n : UInt64} {new_timeval : Option Int} {emee : Bool}
    (hheld : ¬fd.held) (hreset : resetCounterVal.run fd = .ok n fd') :
    (settime new_timeval emee).run fd =
      (startOrStop new_timeval).run (fd'.withTime new_timeval emee) := by
  simp only [settime, EStateM.run_bind, EStateM.run_modify, lockCounter_run hheld, hreset]
  rfl

theorem startOrStop_starts (fd : EmEventTmrFd L) {d : Int} (hd : d ≠ 0) (hattached : fd.event_meth_epoll_equiv_impl_)
    (hflags : FlagsOk fd) (hev : fd.ev_ = none → ¬fd.flags_.write)
    (hadd : fd.interested → fd.add_was_artificial_) :
    (startOrStop (some d)).run fd = .ok 0
      { fd.attached with
        ev_ := some (L.event_add fd.prepared fd.prior_tv_)
        interested := true, add_was_artificial_ := true } := by
  simp only [startOrStop, EStateM.run_bind, EStateM.run_get, EStateM.run_modify,
    EStateM.run_pure, Option.getD_some, ne_eq, hd, not_false_eq_true, if_true, hattached,
    not_true_eq_false, if_false, ctlEx_add fd hflags hev hadd]

theorem startOrStop_stops (fd : EmEventTmrFd L) {new_timeval : Option Int} (hnone : new_timeval.getD 0 = 0)
    (hattached : fd.event_meth_epoll_equiv_impl_) :
    ∃ fd', (startOrStop new_timeval).run fd = .ok 0 fd' ∧ fd'.counter_val_ = fd.counter_val_ ∧
      fd'.pending = none := by
  cases hev : fd.ev_ with
  | none =>
    refine ⟨fd, ?_, rfl, by rw [pending, hev]; rfl⟩
    simp only [startOrStop, EStateM.run_bind, EStateM.run_get, EStateM.run_pure, hnone, ne_eq,
      not_true_eq_false, if_false, hev, Option.isSome_none, Bool.false_eq_true, false_and]
  | some ev =>
    simp only [startOrStop, EStateM.run_bind, EStateM.run_get, EStateM.run_modify,
      EStateM.run_pure, hnone, ne_eq, not_true_eq_false, if_false, hev, Option.isSome_some,
      hattached, and_self, if_true, ctlEx_del hev]
    exact ⟨_, rfl, rfl, L.timeout_del ev⟩

/-- The event cannot be added: it would be a first event, or the renewal leaves none, and it is
for writing too. -/
def Unaddable (fd : EmEventTmrFd L) : Prop := fd.flags_.write ∧ (fd.ev_ = none ∨ fd.Renews)

/-- The reactor has registered the timer itself, so that `settime` may not add it again. -/
def Registered (fd : EmEventTmrFd L) : Prop := fd.interested ∧ ¬fd.add_was_artificial_

instance : Decidable fd.InEmee := inferInstanceAs (Decidable (_ ∧ _))

instance : Decidable fd.Renews := inferInstanceAs (Decidable (_ ∧ _ ∧ _))

instance : Decidable fd.Refused := inferInstanceAs (Decidable (_ ∧ _ ∧ _))

instance : Decidable fd.Unaddable := inferInstanceAs (Decidable (_ ∧ (_ ∨ _)))

instance : Decidable fd.Registered := inferInstanceAs (Decidable (_ ∧ _))

/-- **`settime`** with a duration leaves it pending. -/
theorem settime_starts {d : Int} {emee : Bool} (hflags : FlagsOk fd) (hheld : ¬fd.held)
    (hd : d ≠ 0) (hattached : fd.event_meth_epoll_equiv_impl_ ∨ emee) (hadd : ¬fd.Registered)
    (hwrite : ¬fd.Unaddable) :
    ∃ fd', (settime (some d) emee).run fd = .ok 0 fd' ∧ fd'.counter_val_ = 0 ∧
      fd'.pending = some (Timeval.ofMillis d) := by
  have hrefused : ¬fd.Refused := fun h => hwrite ⟨h.2.1, .inr h.1⟩
  obtain ⟨ev, ready, hreset, hsame⟩ := resetCounterVal_run hflags hrefused
  have hev : ev = none → ¬fd.flags_.write := by
    intro hnone hw
    have hrenews : ¬fd.Renews := fun h => hwrite ⟨hw, .inr h⟩
    rw [hsame hrenews] at hnone
    exact hwrite ⟨hw, .inl hnone⟩
  have hartificial : fd.interested → fd.add_was_artificial_ := fun hin =>
    Decidable.not_not.1 fun hnot => hadd ⟨hin, hnot⟩
  have hrun := startOrStop_starts
    (withTime { fd with counter_val_ := 0, ev_ := ev, ready := ready } (some d) emee)
    hd (Bool.or_eq_true_iff.2 hattached) hflags hev hartificial
  rw [settime_run hheld hreset, hrun]
  exact ⟨_, rfl, rfl, L.timeout_add _ _⟩

/-- **`settime`** without one leaves nothing pending. -/
theorem settime_stops {new_timeval : Option Int} {emee : Bool} (hflags : FlagsOk fd)
    (hheld : ¬fd.held) (hnone : new_timeval.getD 0 = 0)
    (hattached : fd.event_meth_epoll_equiv_impl_ ∨ emee) :
    (final ((settime new_timeval emee).run fd)).counter_val_ = 0 ∧
      (final ((settime new_timeval emee).run fd)).pending = none := by
  by_cases hrefused : fd.Refused
  · have hreset := resetCounterVal_refused hflags hrefused
    simp only [settime, EStateM.run_bind, lockCounter_run hheld, hreset]
    exact ⟨rfl, rfl⟩
  · obtain ⟨ev, ready, hreset, -⟩ := resetCounterVal_run hflags hrefused
    obtain ⟨fd', hrun, hcounter, hpending⟩ := startOrStop_stops
      (withTime { fd with counter_val_ := 0, ev_ := ev, ready := ready } new_timeval emee)
      hnone (Bool.or_eq_true_iff.2 hattached)
    rw [settime_run hheld hreset, hrun]
    exact ⟨hcounter, hpending⟩

/-! ## The count -/

/-- The count is `c`, and nobody keeps its mutex. -/
structure Counts (c : UInt64) (fd : EmEventTmrFd L) : Prop where
  flags : FlagsOk fd
  held : ¬fd.held
  count : fd.counter_val_ = c

variable {c : UInt64}

def CountsAttached (c : UInt64) (fd : EmEventTmrFd L) : Prop :=
  Counts c fd ∧ fd.event_meth_epoll_equiv_impl_

theorem setFlags_leads (flgs : Evm) :
    Leads (CountsAttached (L := L) c) (CountsAttached c) (setFlags flgs) := by
  refine .look_bind fun fd ⟨hcounts, hattached⟩ => ?_
  by_cases hclosed : fd.event_meth_epoll_equiv_impl_ ∧ flgs.closed ∧ ¬L.early_close
  · simp only [if_pos hclosed]
    exact ⟨hcounts, hattached⟩
  · simp only [if_neg hclosed]
    refine ⟨⟨fun h => ?_, hcounts.held, hcounts.count⟩, hattached⟩
    exact Decidable.not_not.1 fun hnot => hclosed ⟨hattached, h, hnot⟩

theorem prepareEv_leads (events : Evm) :
    Leads (CountsAttached (L := L) c) (CountsAttached c) (prepareEv events) := by
  refine .bind (.look fun _ => id) (fun fd => ?_) fun _ => id
  cases fd.ev_ with
  | none =>
    refine .bind (setFlags_leads events) (fun _ => ?_) fun _ => id
    refine .bind (.look fun _ => id) (fun fd => ?_) fun _ => id
    refine .ite (.pure _ fun _ => id) ?_
    exact .bind (.modify fun _ h => ⟨⟨h.1.flags, h.1.held, h.1.count⟩, h.2⟩)
      (fun _ => .pure _ fun _ => id) fun _ => id
  | some _ =>
    refine .bind (.look fun _ => id) (fun fd => ?_) fun _ => id
    refine .ite ?_ (.pure _ fun _ => id)
    refine .bind (.modify fun _ h => ⟨⟨h.1.flags, h.1.held, h.1.count⟩, h.2⟩) (fun _ => ?_)
      fun _ => id
    exact .bind (setFlags_leads events) (fun _ => .pure _ fun _ => id) fun _ => id

theorem addOrDel_leads (op : EvCtlAction) (tv : Option Timeval) :
    Leads (Counts (L := L) c) (Counts c) (addOrDel op tv) := by
  refine .look_bind fun fd hfd => ?_
  cases fd.ev_ with
  | none => exact hfd
  | some ev => cases op <;> exact ⟨hfd.flags, hfd.held, hfd.count⟩

theorem emEventCtl_leads (op : EvCtlAction) (events : Evm) (timeval : Option Int) :
    Leads (Counts (L := L) c) (Counts c) (emEventCtl op events timeval) := by
  have hrest : Leads (Counts (L := L) c) (Counts c)
      (do
        modify fun fd => { fd with prior_tv_ := timeval.map Timeval.ofMillis <|> fd.prior_tv_ }
        addOrDel op (← get).prior_tv_
        return (0 : Int)) := by
    refine .bind (.modify fun _ h => ⟨h.flags, h.held, h.count⟩) (fun _ => ?_) fun _ => id
    refine .bind (.look fun _ => id) (fun _ => ?_) fun _ => id
    exact .bind (addOrDel_leads op _) (fun _ => .pure _ fun _ => id) fun _ => id
  refine .bind (R := CountsAttached c) (.modify fun _ h => ⟨⟨h.flags, h.held, h.count⟩, rfl⟩)
    (fun _ => ?_) fun _ h => h.1
  refine .ite ?_ (hrest.mono (fun _ (h : CountsAttached c _) => h.1) fun _ => id)
  refine .bind (prepareEv_leads events) (fun res => ?_) fun _ h => h.1
  exact .ite (.pure _ fun _ h => h.1)
    (hrest.mono (fun _ (h : CountsAttached c _) => h.1) fun _ => id)

theorem lockCounter_leads : Leads (Counts (L := L) c) (Counts c) lockCounter :=
  .bind (.look fun _ => id) (fun _ => .ite (.throw _ fun _ => id) (.pure _ fun _ => id)) fun _ => id

theorem emEventCtrCtl_leads (op : EvCtlAction) (events : Evm) (timeval : Option Int) :
    Leads (Counts (L := L) c) (Counts c) (emEventCtrCtl op events timeval) := by
  refine .bind (.look fun _ => id) (fun old => ?_) fun _ => id
  refine .bind (emEventCtl_leads op events timeval) (fun res => ?_) fun _ => id
  refine .ite (.pure _ fun _ => id) ?_
  refine .bind (.look fun _ => id) (fun _ => ?_) fun _ => id
  refine .ite ?_ (.pure _ fun _ => id)
  refine .bind lockCounter_leads (fun _ => ?_) fun _ => id
  refine .look_bind fun fd hfd => ?_
  by_cases hactive : fd.flags_.read ∧ 0 < fd.counter_val_ ∧ (old.ev_.isNone ∨ ¬old.flags_.read)
  · simp only [if_pos hactive]
    exact ⟨hfd.flags, hfd.held, hfd.count⟩
  · simp only [if_neg hactive]
    exact hfd

theorem ctlEx_leads (op : EvCtlAction) (events : Evm) (timeval : Option Int) (force : Bool) :
    Leads (Counts (L := L) c) (Counts c) (ctlEx op events timeval force) := by
  refine .bind (.look fun _ => id) (fun fd => ?_) fun _ => id
  refine .ite (.pure _ fun _ => id) ?_
  refine .ite (.bind (emEventCtl_leads op events timeval) (fun res => ?_) fun _ => id)
    (.bind (emEventCtrCtl_leads op events timeval) (fun res => ?_) fun _ => id)
  all_goals
    refine .ite ?_ (.pure _ fun _ => id)
    cases op <;>
      exact .bind (.modify fun _ h => ⟨h.flags, h.held, h.count⟩)
        (fun _ => .pure _ fun _ => id) fun _ => id

theorem ctl_leads (op : EvCtlAction) (events : Evm) (timeval : Option Int) :
    Leads (Counts (L := L) c) (Counts c) (ctl op events timeval) := by
  refine .bind (ctlEx_leads op events timeval false) (fun res => ?_) fun _ => id
  refine .ite ?_ (.pure _ fun _ => id)
  exact .bind (.modify fun _ h => ⟨h.flags, h.held, h.count⟩) (fun _ => .pure _ fun _ => id)
    fun _ => id

theorem startOrStop_leads (new_timeval : Option Int) :
    Leads (Counts (L := L) c) (Counts c) (startOrStop new_timeval) := by
  refine .look_bind fun fd hfd => ?_
  have hset : ∀ b, Leads (Counts (L := L) c) (Counts c)
      (do modify fun fd => { fd with add_was_artificial_ := b }
          return 0 : Prog L Int) := fun b =>
    .bind (.modify fun _ h => ⟨h.flags, h.held, h.count⟩) (fun _ => .pure _ fun _ => id) fun _ => id
  have hadd := ctlEx_leads (L := L) (c := c) .Add fd.flags_ none true
  have hdel := ctlEx_leads (L := L) (c := c) .Del {} none true
  by_cases htime : new_timeval.getD 0 ≠ 0
  · simp only [if_pos htime]
    by_cases hattached : fd.event_meth_epoll_equiv_impl_
    · simp only [hattached, not_true_eq_false, if_false]
      refine Leads.bind hadd (fun res => ?_) (fun _ => id) fd hfd
      exact .ite (.bind (.throw _ fun _ => id) (fun _ => hset true) fun _ => id) (hset true)
    · simp only [if_pos hattached]
      exact ⟨hfd.flags, hfd.held, hfd.count⟩
  · simp only [if_neg htime]
    refine Leads.ite (.bind hdel (fun res => ?_) fun _ => id) (.pure _ fun _ => id) fd hfd
    exact .ite (.bind (.throw _ fun _ => id) (fun _ => hset false) fun _ => id) (hset false)

theorem settime_leads (new_timeval : Option Int) (emee : Bool) :
    Leads (Counts (L := L) c) (Counts 0) (settime new_timeval emee) := by
  intro fd hfd
  by_cases hrefused : fd.Refused
  · have hreset := resetCounterVal_refused hfd.flags hrefused
    simp only [settime, EStateM.run_bind, lockCounter_run hfd.held, hreset]
    exact ⟨hfd.flags, hfd.held, rfl⟩
  · obtain ⟨ev, ready, hreset, -⟩ := resetCounterVal_run hfd.flags hrefused
    rw [settime_run hfd.held hreset]
    exact startOrStop_leads new_timeval _ ⟨hfd.flags, hfd.held, rfl⟩

/-- **A read** returns the count. -/
theorem read_run (hfd : Counts c fd) (hrefused : ¬fd.Refused) (hwait : fd.blocking → c ≠ 0) :
    ∃ fd', read.run fd = .ok (if c ≠ 0 then .value c else .EAGAIN) fd' ∧ Counts 0 fd' := by
  obtain ⟨ev, ready, hreset, -⟩ := resetCounterVal_run hfd.flags hrefused
  refine ⟨{ fd with counter_val_ := 0, ev_ := ev, ready := ready }, ?_,
    hfd.flags, hfd.held, rfl⟩
  simp only [read, EStateM.run_bind, lockCounter_run hfd.held, hreset, hfd.count]
  by_cases hzero : c ≠ 0
  · simp only [if_pos hzero, EStateM.run_pure]
  · have hblocking : ¬fd.blocking := fun h => hzero (hwait h)
    simp only [if_neg hzero, EStateM.run_bind, EStateM.run_get, if_neg hblocking,
      EStateM.run_pure]

/-! ## Callbacks -/

theorem writeProt_leads (hmax : c < maxCount) :
    Leads (Counts (L := L) c) (Counts (c + 1)) writeProt := by
  intro fd hfd
  simp only [writeProt, EStateM.run_bind, EStateM.run_get, lockCounter_run hfd.held, hfd.count,
    if_pos hmax]
  exact ⟨hfd.flags, hfd.held, rfl⟩

theorem callback_leads :
    Leads (Counts (L := L) c) (Counts c) (do
      if ¬L.et then deactivateAfterTriggerIfNeeded
      modify fun fd => { fd with ready := true } : Prog L Unit) := by
  have hready : Leads (Counts (L := L) c) (Counts c)
      (modify fun fd => { fd with ready := true } : Prog L Unit) := .modify fun _ h => ⟨h.flags, h.held, h.count⟩
  refine .ite (.bind (.modify fun _ h => ⟨h.flags, h.held, h.count⟩) (fun _ => hready) fun _ => id)
    hready

/-- An expiry is counted, where the callback finds the timer. -/
theorem deliver_expired (hmax : c < maxCount) :
    Leads (fun fd : EmEventTmrFd L => Counts c fd ∧ fd.interested) (Counts (c + 1))
      (deliver true) := by
  intro fd ⟨hfd, hin⟩
  have hcalled : Counts c { fd with ev_ := fd.ev_.map (L.callback · true) } :=
    ⟨hfd.flags, hfd.held, hfd.count⟩
  have hrun := Leads.bind (writeProt_leads (L := L) hmax) (fun _ => callback_leads) (fun _ => id) _
    hcalled
  simp only [deliver, handleEventCallback, EStateM.run_bind (modify _), EStateM.run_modify,
    EStateM.run_bind get, EStateM.run_get, if_pos hin, if_true]
  exact hrun

theorem deliver_activated : Leads (Counts (L := L) c) (Counts c) (deliver false) := by
  refine .bind (.modify fun _ h => ⟨h.flags, h.held, h.count⟩) (fun _ => ?_) fun _ => id
  refine .bind (.look fun _ => id) (fun _ => ?_) fun _ => id
  exact .ite callback_leads (.pure _ fun _ => id)

theorem takeReady_leads (dispatch_res : Int) :
    Leads (Counts (L := L) c) (Counts c) (takeReady dispatch_res) := by
  refine .look_bind fun fd hfd => ?_
  by_cases h : 0 ≤ dispatch_res ∧ dispatch_res ≠ 1 ∧ fd.ready
  · simp only [if_pos h]
    exact ⟨hfd.flags, hfd.held, hfd.count⟩
  · simp only [if_neg h]
    exact hfd

/-! ## Runs -/

/-- A timer, and how often it has expired since the last `settime` or `read`. -/
structure Counted (L : Libevent) where
  fd : EmEventTmrFd L
  expiries : Nat := 0

namespace Counted

def start (emee blocking : Bool) : Counted L where
  fd := make_new emee blocking

def step (s : Counted L) (event : Event) : Counted L where
  fd := final ((op event).run s.fd)
  expiries := match event with
    | .settime _ _ | .read => 0
    | .expire => if s.fd.pending.isSome then s.expiries + 1 else s.expiries
    | .ctl _ _ _ | .activated | .poll _ => s.expiries

/-- `settime`, `read` and the expiries of a timer descriptor. -/
def Behaves (s : Counted L) : Event → Prop
  | .settime new_timeval emee => s.fd.event_meth_epoll_equiv_impl_ ∨ emee →
    (∀ d, new_timeval = some d → 0 < d → ∃ fd',
      (op (.settime new_timeval emee)).run s.fd = .ok (.res 0) fd' ∧ fd'.counter_val_ = 0 ∧
        ∃ tv, fd'.pending = some tv ∧ tv.micros = d * 1000) ∧
    (new_timeval.getD 0 = 0 →
      (s.step (.settime new_timeval emee)).fd.counter_val_ = 0 ∧
        (s.step (.settime new_timeval emee)).fd.pending = none)
  | .read => ∃ (n : UInt64) (fd' : EmEventTmrFd L), n.toNat = s.expiries ∧
    (op .read).run s.fd = .ok (.read (if n ≠ 0 then .value n else .EAGAIN)) fd'
  | .ctl _ _ _ | .expire | .activated | .poll _ => True

/-- Nothing is in the way: the duration is one that `setPriorTv` keeps, the reactor has not
registered the timer itself, and not for writing; an expiry finds the timer in `interest_`; a read
does not wait. -/
def Meets (s : Counted L) : Event → Prop
  | .settime none _ => True
  | .settime (some d) emee => 0 < d → s.fd.event_meth_epoll_equiv_impl_ ∨ emee →
    (d < 1000 ∨ 1000 ∣ d) ∧ ¬s.fd.Registered ∧ ¬s.fd.Unaddable
  | .expire => s.fd.pending.isSome → s.fd.interested ∧ s.fd.counter_val_ < maxCount
  | .read => ¬s.fd.Refused ∧ (s.fd.blocking → s.fd.counter_val_ ≠ 0)
  | .ctl _ _ _ | .activated | .poll _ => True

instance (s : Counted L) : ∀ event, Decidable (s.Meets event)
  | .settime none _ => inferInstanceAs (Decidable True)
  | .settime (some _) _ => inferInstanceAs (Decidable (_ → _ → _))
  | .expire => inferInstanceAs (Decidable (_ → _ ∧ _))
  | .read => inferInstanceAs (Decidable (_ ∧ (_ → _)))
  | .ctl _ _ _ | .activated | .poll _ => inferInstanceAs (Decidable True)

/-- The count is that of the expiries. -/
def Inv (s : Counted L) : Prop := ∃ c : UInt64, Counts c s.fd ∧ c.toNat = s.expiries

theorem start_inv (emee blocking : Bool) : Inv (start emee blocking : Counted L) :=
  ⟨0, ⟨(fun h => nomatch h), (fun h => nomatch h), rfl⟩, rfl⟩

theorem micros_ofMillis {d : Int} (h : d < 1000 ∨ 1000 ∣ d) :
    (Timeval.ofMillis d).micros = d * 1000 := by
  unfold Timeval.ofMillis Timeval.micros
  split
  · simp
  · have hdvd : 1000 ∣ d := h.resolve_left ‹_›
    simp only [Int.add_zero]
    omega

theorem step_settime {s : Counted L} {new_timeval : Option Int} {emee : Bool} (h : Inv s)
    (hmeets : s.Meets (.settime new_timeval emee)) :
    s.Behaves (.settime new_timeval emee) ∧ Inv (s.step (.settime new_timeval emee)) := by
  obtain ⟨c, hcounts, -⟩ := h
  have hfinal : final ((op (.settime new_timeval emee)).run s.fd) =
      final ((settime new_timeval emee).run s.fd) := by
    simp only [op, run_map]
    cases (settime new_timeval emee).run s.fd <;> rfl
  refine ⟨fun hattached => ⟨?_, fun hnone => ?_⟩, 0, ?_, rfl⟩
  · rintro d rfl hd
    obtain ⟨hround, hregistered, hadd⟩ := hmeets hd hattached
    obtain ⟨fd', hrun, hcount, hpending⟩ := settime_starts hcounts.flags hcounts.held
      (Int.ne_of_gt hd) hattached hregistered hadd
    refine ⟨fd', ?_, hcount, _, hpending, micros_ofMillis hround⟩
    simp only [op, run_map, hrun]
  · simp only [step, hfinal]
    exact settime_stops hcounts.flags hcounts.held hnone hattached
  · simp only [step, hfinal]
    exact settime_leads new_timeval emee _ hcounts

theorem step_read {s : Counted L} (h : Inv s) (hmeets : s.Meets .read) :
    s.Behaves .read ∧ Inv (s.step .read) := by
  obtain ⟨c, hcounts, hc⟩ := h
  obtain ⟨hrefused, hwait⟩ := hmeets
  obtain ⟨fd', hrun, hafter⟩ := read_run hcounts hrefused fun hb => hcounts.count ▸ hwait hb
  have hop : (op .read).run s.fd =
      .ok (.read (if c ≠ 0 then .value c else .EAGAIN)) fd' := by
    simp only [op, run_map, hrun]
  refine ⟨⟨c, fd', hc, hop⟩, 0, ?_, rfl⟩
  simp only [step, hop]
  exact hafter

theorem step_expire {s : Counted L} (h : Inv s) (hmeets : s.Meets .expire) :
    Inv (s.step .expire) := by
  obtain ⟨c, hcounts, hc⟩ := h
  by_cases hpending : s.fd.pending.isSome
  · obtain ⟨hin, hmax⟩ := hmeets hpending
    rw [hcounts.count] at hmax
    have hdeliver := deliver_expired hmax s.fd ⟨hcounts, hin⟩
    refine ⟨c + 1, ?_, ?_⟩
    · simp only [step, op, EStateM.run_bind, EStateM.run_get, if_pos hpending]
      cases hrun : (deliver true).run s.fd with
      | ok _ fd' =>
        rw [hrun] at hdeliver
        exact hdeliver
      | error _ fd' =>
        rw [hrun] at hdeliver
        exact hdeliver
    · have hlt : c.toNat < 0xfffffffffffffffe := hmax
      simp only [step, if_pos hpending, UInt64.toNat_add, UInt64.toNat_one, hc] at hlt ⊢
      omega
  · refine ⟨c, ?_, ?_⟩
    · simp only [step, op, EStateM.run_bind, EStateM.run_get, if_neg hpending]
      exact hcounts
    · simp only [step, if_neg hpending]
      exact hc

theorem step_other {s : Counted L} {event : Event} {c : UInt64} (hcounts : Counts c s.fd)
    (hleads : Leads (Counts (L := L) c) (Counts c) (op event))
    (hc : c.toNat = s.expiries) (hexpiries : (s.step event).expiries = s.expiries) :
    Inv (s.step event) :=
  ⟨c, hleads _ hcounts, hc.trans hexpiries.symm⟩

theorem step_behaves {s : Counted L} (event : Event) (h : Inv s) (hmeets : s.Meets event) :
    s.Behaves event ∧ Inv (s.step event) := by
  cases event with
  | settime new_timeval emee => exact step_settime h hmeets
  | read => exact step_read h hmeets
  | expire => exact ⟨trivial, step_expire h hmeets⟩
  | ctl op events timeval =>
    obtain ⟨c, hcounts, hc⟩ := h
    exact ⟨trivial, step_other hcounts (.map (ctl_leads op events timeval)) hc rfl⟩
  | activated =>
    obtain ⟨c, hcounts, hc⟩ := h
    refine ⟨trivial, step_other hcounts (.bind (.look fun _ => id) (fun fd => ?_) fun _ => id)
      hc rfl⟩
    exact .ite (.bind deliver_activated (fun _ => .pure _ fun _ => id) fun _ => id)
      (.pure _ fun _ => id)
  | poll dispatch_res =>
    obtain ⟨c, hcounts, hc⟩ := h
    exact ⟨trivial, step_other hcounts
      (.bind (takeReady_leads dispatch_res) (fun _ => .pure _ fun _ => id) fun _ => id) hc rfl⟩

/-- **A timer behaves**: in a run with nothing in its way, `settime` starts and stops the timer,
and a read returns how often it has expired since. -/
theorem timer_behaves (emee blocking : Bool) (events : List Event)
    (h : Machine.Always step Meets (start emee blocking : Counted L) events) :
    Machine.Always step Behaves (start emee blocking : Counted L) events :=
  Machine.Always.imp (fun _ event => step_behaves event) events _ (start_inv emee blocking) h

/-- A timer expires twice, is read each time, and stopped. -/
theorem timer_behaves_twice : Machine.Always step Behaves
    (start true false : Counted .documented)
    [.settime (some 500) false, .expire, .activated, .poll 0, .read, .settime (some 2000) false,
      .expire, .read, .settime none false] :=
  timer_behaves true false _ (by decide)

/-- `settime(1500)` is one second. -/
theorem settime_rounds : ¬Machine.Always step Behaves
    (start true false : Counted .documented) [.settime (some 1500) false] := by
  rintro ⟨h, -⟩
  obtain ⟨fd', hrun, -, tv, htv, hmicros⟩ := (h (.inl rfl)).1 1500 rfl (by decide)
  have hfd' : final ((op (.settime (some 1500) false)).run
      (start true false : Counted .documented).fd) = fd' := by rw [hrun]; rfl
  have hpending : fd'.pending = some { tv_sec := 1, tv_usec := 0 } := by
    rw [← hfd']
    rfl
  rw [hpending] at htv
  cases htv
  exact absurd hmicros (by decide)

end Counted

end Pistache.Eventmeth.EmEventTmrFd
