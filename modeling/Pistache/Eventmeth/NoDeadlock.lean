import Pistache.Eventmeth.LockOrder

/-!
# No deadlock in the epoll emulation

Each function leaves the mutexes as it found them, but for `lockInterestMutex` and
`unlockInterestMutexIfLocked`.

* `no_deadlock` — no thread waits for another in a cycle, in any run where no timer is renewed
  while its callback counts the expiry.
* `timer_deadlock` — where one is, they do.
-/

set_option autoImplicit false

namespace Pistache.Eventmeth.EpollEquiv

open Locked

variable {M T : Type} [DecidableEq M] [DecidableEq T] {t : T} {g : Trace M} {S : Setting M}
variable {m : M} {fd : Fd}

/-! ## Events and interest sets -/

namespace Balanced

theorem event : Balanced t (event fd : Code M _) g := read

theorem setEvent {change : EmEvent M → EmEvent M} : Balanced t (setEvent fd change) g :=
  modify fun _ _ => rfl

theorem findFdInInterest (h : g.MayWait (.interest_mutex_ m)) :
    Balanced t (findFdInInterest m fd) g := guarded h read

theorem scan (h : ∀ m : M, g.MayWait (.interest_mutex_ m)) : ∀ ms : List M, Balanced t (scan fd ms) g
  | [] => pure
  | m :: ms => bind (findFdInInterest (h m)) fun _ => ite (fun _ => pure) fun _ => scan h ms

theorem findEmEventInAnInterestSet (h : g.Open) :
    Balanced t (findEmEventInAnInterestSet S fd) g :=
  guarded h.emee (scan h.emee_interest _)

theorem getEventMethEpollEquivImpl (h : g.Open) :
    Balanced t (getEventMethEpollEquivImpl S fd) g := by
  refine bind event fun e => ?_
  split
  · exact pure
  · exact bind (guarded h.emee pure) fun _ => ite (fun _ => pure) fun _ => bind setEvent fun _ => pure

/-! ## `ctl` -/

theorem setFlags {flgs : Evm} : Balanced t (setFlags S fd flgs) g :=
  bind event fun _ => ite (fun _ => throw) fun _ => setEvent

theorem attach (h : g.Open) : Balanced t (attach S m fd) g := by
  refine bind event fun e => ?_
  split
  · exact setEvent
  · refine ite (fun _ => pure) fun _ => bind (findEmEventInAnInterestSet h) fun owning_emee => ?_
    split
    · exact setEvent
    · exact ite (fun _ => setEvent) fun _ => throw

theorem prepareEv {events : Evm} : Balanced t (prepareEv S fd events) g := by
  refine bind event fun e => ite (fun _ => ?_) fun _ => ite (fun _ => ?_) fun _ => pure
  · refine bind setFlags fun _ => bind event fun _ => ite (fun _ => pure) fun _ => ?_
    exact bind ask fun _ => ite (fun _ => bind setEvent fun _ => pure) fun _ => pure
  · refine bind setEvent fun _ => bind ask fun _ => ite (fun _ => ?_) fun _ => throw
    exact bind setEvent fun _ => bind setFlags fun _ => pure

theorem emEvent_ctl (h : g.Open) {op : EvCtlAction} {events : Evm} :
    Balanced t (EmEvent.ctl S op m fd events) g := by
  refine bind (attach h) fun _ => ite (fun _ => bind ask fun _ => pure) fun _ => ?_
  exact bind prepareEv fun _ => ite (fun _ => bind ask fun _ => pure) fun _ => pure

theorem emEventCtr_ctl (h : g.held = []) {op : EvCtlAction} {events : Evm} :
    Balanced t (EmEventCtr.ctl S op m fd events) g := by
  have hactivate : Balanced t (EmEventCtr.activate fd) g :=
    bind event fun _ => ite (fun _ => guarded (Trace.mayWait_of_nil h fd) pure) fun _ => pure
  refine bind (emEvent_ctl (Trace.open_of_nil h)) fun _ => ite (fun _ => ?_) fun _ => pure
  exact bind hactivate fun _ => pure

theorem checkInterest (h : g.Open) {op : EvCtlAction} : Balanced t (checkInterest op m fd) g :=
  guarded (h.interest m) read

theorem eraseBoth (s : State M) (m' : M) :
    ((eraseBoth m fd s).emee m').int_mut_locked_by_get_ready_em_events_ =
      (s.emee m').int_mut_locked_by_get_ready_em_events_ :=
  flag_setEmee (f := fun s => { s.emee m with
    interest_ := (s.emee m).interest_.erase fd
    ready_ := (s.emee m).ready_.erase fd }) (fun _ => rfl) s m'

theorem updateInterest (h : g.Open) {op : EvCtlAction} {found : Bool} :
    Balanced t (updateInterest op m fd found) g := by
  refine guarded (h.interest m) ?_
  have hinsert : Balanced t (insertInterest m fd) (g.lock (.interest_mutex_ m)) :=
    act (flag_setEmee (f := fun s => { s.emee m with
      interest_ := insert fd (s.emee m).interest_ }) fun _ => rfl) fun _ => pure
  cases op with
  | Add => exact ite (fun _ => pure) fun _ => hinsert
  | Mod => exact ite (fun _ => pure) fun _ => hinsert
  | Del =>
    refine bind (guarded (h.interest_ready m) (modify fun s m' => ?_)) fun _ => pure
    split
    · exact eraseBoth s m'
    · exact flag_setEmee (f := fun s => { s.emee m with
        ready_ := (s.emee m).ready_.erase fd }) (fun _ => rfl) s m'

theorem ctlEx (h : g.Open) {op : EvCtlAction} {events : Evm} {forceEmEventCtlOnly : Bool}
    (hforce : forceEmEventCtlOnly = true ∨ g.held = []) :
    Balanced t (ctlEx S op m fd events forceEmEventCtlOnly) g := by
  refine bind (checkInterest h) fun found => ite (fun _ => ?_) fun _ => pure
  refine bind ?_ fun _ => ite (fun _ => updateInterest h) fun _ => pure
  refine ite (fun _ => emEvent_ctl h) fun hctl => emEventCtr_ctl (hforce.resolve_left fun hf => ?_)
  exact hctl (.inl hf)

theorem ctl (h : g.held = []) {op : EvCtlAction} {events : Evm} :
    Balanced t (ctl S op m fd events) g :=
  bind (ctlEx (Trace.open_of_nil h) (.inr h)) fun _ =>
    ite (fun _ => bind setEvent fun _ => pure) fun _ => pure

/-! ## Counters -/

theorem renewDel (h : g.Open) {emee : Option M} : Balanced t (renewDel S fd emee) g := by
  refine bind event fun e => ite (fun _ => bind ?_ fun _ => bind setEvent fun _ => pure) fun _ => pure
  cases emee with
  | none => exact pure
  | some m =>
    refine bind (findFdInInterest (h.interest m)) fun _ => ite (fun _ => ?_) fun _ => pure
    exact bind (ctlEx h (.inl rfl)) fun _ => ite (fun _ => pure) fun _ => throw

theorem renewAdd (h : g.Open) {emee : Option M} {old_flags : Evm} {ev_in_emee : Bool} :
    Balanced t (renewAdd S fd emee old_flags ev_in_emee) g := by
  unfold EpollEquiv.renewAdd
  split
  · refine bind (ctlEx h (.inl rfl)) fun _ => ite (fun _ => ?_) fun _ => throw
    exact bind event fun _ => ite (fun _ => pure) fun _ => throw
  · exact pure

/-- A thread in `renewEv` has locked the counter alone. -/
theorem renewEv (h : g.held = [.counter_val_mutex_ fd]) : Balanced t (renewEv S fd) g := by
  have hopen : (g.push (.renewEv fd)).Open := fun l hl => by
    have hl' : l ∈ g.held := hl
    rw [h, List.mem_singleton] at hl'
    exact ⟨fd, hl', fun _ => List.mem_cons_self⟩
  refine within (fun m => nofun) ?_
  refine bind event fun _ => bind (getEventMethEpollEquivImpl hopen) fun emee => ?_
  refine bind (renewDel hopen) fun _ => bind (renewAdd hopen) fun _ => bind event fun _ => ?_
  exact ite (fun _ => ite (fun _ => pure) fun _ => throw) fun _ => pure

theorem resetCounterValMutexAlreadyLocked (h : g.held = [.counter_val_mutex_ fd]) :
    Balanced t (resetCounterValMutexAlreadyLocked S fd) g := by
  refine bind event fun _ => ite (fun _ => pure) fun _ => bind setEvent fun _ => ?_
  refine bind (bind event fun _ => ite (fun _ => ?_) fun _ => pure) fun _ => pure
  exact ite (fun _ => renewEv h) fun _ => ite (fun _ => pure) fun _ => pure

omit [DecidableEq M] in
theorem held_lock {l : Mutex M} (h : g.held = []) : (g.lock l).held = [l] := by
  rw [Trace.lock, h]

theorem resetCounterVal (h : g.held = []) : Balanced t (resetCounterVal S fd) g :=
  guarded (Trace.mayWait_of_nil h fd) (resetCounterValMutexAlreadyLocked (held_lock h))

theorem emEventCtr_read (h : g.held = []) : Balanced t (EmEventCtr.read S fd) g := by
  refine guarded (Trace.mayWait_of_nil h fd) ?_
  refine bind (resetCounterValMutexAlreadyLocked (held_lock h)) fun _ => ?_
  exact ite (fun _ => pure) fun _ => bind event fun _ => pure

theorem writeProt {val : UInt64} (hwait : g.MayWait (.counter_val_mutex_ fd))
    (h : fd.type ≠ .EmEvTimer → g.held = []) : Balanced t (EmEventCtr.writeProt S fd val) g := by
  refine ite (fun _ => pure) fun _ => guarded hwait (bind event fun e => ?_)
  refine ite (fun _ => pure) fun _ => bind setEvent fun _ => ?_
  refine bind (ite (fun _ => ite (fun hrenew => ?_) fun _ => ?_) fun _ => pure) fun _ => pure
  · exact renewEv (held_lock (h hrenew.1))
  · exact ite (fun _ => pure) fun _ => pure

/-! ## `settime` and `closeEvent` -/

theorem settimeEmee {emee : Option M} : Balanced t (settimeEmee fd emee) g := by
  cases emee with
  | none => exact bind event fun _ => pure
  | some m =>
    refine bind event fun e => ?_
    split
    · exact bind setEvent fun _ => pure
    · exact ite (fun _ => pure) fun _ => throw

theorem emEvent_settime {emee : Option M} : Balanced t (EmEvent.settime fd emee) g :=
  bind event fun _ => ite (fun _ => throw) fun _ => bind settimeEmee fun _ => pure

theorem emEventTmrFd_settime (h : g.held = []) {running : Bool} {emee : Option M} :
    Balanced t (EmEventTmrFd.settime S fd running emee) g := by
  have hopen : g.Open := Trace.open_of_nil h
  refine bind (resetCounterVal h) fun _ => bind settimeEmee fun emee => ite (fun _ => ?_) fun _ => ?_
  · cases emee with
    | none => exact setEvent
    | some m =>
      refine bind event fun _ => bind (ctlEx hopen (.inl rfl)) fun _ => ?_
      exact ite (fun _ => setEvent) fun _ => throw
  · refine bind event fun _ => ite (fun _ => ?_) fun _ => pure
    cases emee with
    | none => exact pure
    | some m =>
      exact bind (ctlEx hopen (.inl rfl)) fun _ => ite (fun _ => setEvent) fun _ => throw

theorem close : Balanced t (EmEvent.close fd : Code M Bool) g :=
  bind event fun _ => bind setEvent fun _ => ite (fun _ => bind ask fun _ => pure) fun _ => pure

theorem closeInterest (h : g.Open) :
    Balanced t (closeInterest m fd) (g.lock .emee_cptr_set_mutex_) := by
  refine guarded (h.emee_interest m) (bind read fun _ => ite (fun _ => ?_) fun _ => pure)
  refine bind (guarded (h.emee_interest_ready m) (bind close fun _ => ?_)) fun _ => pure
  exact ite (fun _ => modify fun s m' => eraseBoth s m') fun _ => pure

theorem closeEvent (h : g.held = []) : Balanced t (closeEvent S fd) g := by
  have hopen : g.Open := Trace.open_of_nil h
  refine bind (getEventMethEpollEquivImpl hopen) fun emeei => bind ?_ fun closed => ?_
  · cases emeei with
    | none => exact pure
    | some m => exact guarded hopen.emee (ite (fun _ => closeInterest hopen) fun _ => pure)
  · refine ite (fun _ => pure) fun _ => bind close fun _ => ?_
    exact ite (fun _ => modify fun _ _ => rfl) fun _ => pure

/-! ## Callbacks -/

/-- With `interest_mutex_`, out of any renewal. -/
theorem handle (h : g.held = [.interest_mutex_ m]) (hstack : ∀ fd, .renewEv fd ∉ g.stack)
    {timeout : Bool} : Balanced t (EmEvent.handleEventCallback S fd timeout) g := by
  refine ite (fun htimer => within (fun m => nofun) ?_) fun _ => pure
  refine bind (writeProt ⟨?_, fun l hl => ?_⟩ fun hne => absurd htimer.1 hne) fun _ => pure
  · simp [Trace.push, h]
  · have hl' : l ∈ g.held := hl
    rw [h, List.mem_singleton] at hl'
    subst hl'
    refine .inl ⟨by simp [Mutex.rank, htimer.1], fun fd' hfd => ?_⟩
    cases hfd
    refine ⟨List.mem_cons_self, fun hin => ?_⟩
    rcases List.mem_cons.mp hin with hin | hin
    · cases hin
    · exact hstack fd hin

theorem addEventToReady (h : g.Open) :
    Balanced t (addEventToReadyInterestAlrdyLocked m fd) (g.lock (.interest_mutex_ m)) := by
  refine bind read fun _ => ite (fun _ => guarded (h.interest_ready m) ?_) fun _ => pure
  exact modify (flag_setEmee (f := fun s => { s.emee m with
    ready_ := insert fd (s.emee m).ready_ }) fun _ => rfl)

theorem handleEventCallback (h : g.held = []) (hstack : ∀ fd, .renewEv fd ∉ g.stack)
    {timeout : Bool} : Balanced t (handleEventCallback S m fd timeout) g := by
  have hopen : g.Open := Trace.open_of_nil h
  refine guarded (hopen.interest m) (bind read fun _ => ite (fun _ => ?_) fun _ => pure)
  exact bind (handle (held_lock h) hstack) fun _ => addEventToReady hopen

theorem eventCallbackFn (h : g.held = []) (hstack : ∀ fd, .renewEv fd ∉ g.stack)
    {timeout : Bool} : Balanced t (eventCallbackFn S fd timeout) g := by
  refine bind (findEmEventInAnInterestSet (Trace.open_of_nil h)) fun emee => ?_
  split
  · exact pure
  · exact handleEventCallback h hstack

end Balanced

/-! ## The mutex that `poll` keeps -/

section

variable {α β : Type} {p : Code M α} {Q : β → Trace M → Prop} {X : Trace M → Prop}

theorem Balanced.wp {Q : α → Trace M → Prop} (hp : Balanced t p g) (hQ : ∀ a, Q a g) (hX : X g) :
    WP Apart (traces T M) t p g Q X :=
  WP.mono (fun a _ hg => hg ▸ hQ a) (fun _ hg => hg ▸ hX) hp

theorem Balanced.andThen {f : α → Code M β} (hp : Balanced t p g) (hX : X g)
    (hf : ∀ a, WP Apart (traces T M) t (f a) g Q X) :
    WP Apart (traces T M) t (p >>= f) g Q X :=
  WP.bind (hp.wp hf hX)

theorem keeps_keep (hpoll : .poll m ∈ g.stack) (hkept : g.kept = none) {ok : _ → Prop} :
    Keeps (traces T M) t g ok
      (·.change fun s => s.setEmee m { s.emee m with int_mut_locked_by_get_ready_em_events_ := true })
      fun _ g' => g' = { g with kept := some m } := by
  rintro G w rfl hinv -
  exact ⟨_, hinv.change_keep hpoll hkept, rfl⟩

theorem keeps_release (hpoll : .poll m ∈ g.stack) (hkept : g.kept = some m) {ok : _ → Prop} :
    Keeps (traces T M) t g ok
      (·.change fun s => s.setEmee m { s.emee m with
        int_mut_locked_by_get_ready_em_events_ := false
        ready_evm_events_out := ∅ })
      fun _ g' => g' = { g with kept := none } := by
  rintro G w rfl hinv -
  exact ⟨_, hinv.change_release hpoll hkept, rfl⟩

/-- Where the thread is in `poll`, with the mutex that `getReadyEmEvents` keeps or without it. -/
def polling (m : M) : Option M → Trace M
  | none => ⟨[], [.poll m], none⟩
  | some m' => ⟨[.interest_mutex_ m'], [.poll m], some m'⟩

theorem lockInterestMutex_wp {Q : Unit → Trace M → Prop} (hQ : Q () (polling m (some m))) :
    WP Apart (traces T M) t (lockInterestMutex m) (polling m none) Q X := by
  have hpoll : .poll m ∈ (polling m none).stack := List.mem_cons_self
  -- the mutex of the flag, the flag, `interest_mutex_`, and the first one again
  refine ⟨⟨List.not_mem_nil, hpoll⟩, (keeps_lock fun m' hm => ?_).mono (fun _ hw => hw)
    fun _ g₁ hg₁ => ?_⟩
  · cases hm
    exact hpoll
  subst hg₁
  refine (keeps_keep (g := (polling m none).lock _) hpoll rfl).mono (fun _ hw => hw)
    fun _ g₂ hg₂ => ?_
  subst hg₂
  refine ⟨⟨by simp [polling, Trace.lock], fun h hh => ?_⟩,
    (keeps_lock (l := .interest_mutex_ m) fun m' hm => by cases hm).mono (fun _ hw => hw)
      fun _ g₃ hg₃ => ?_⟩
  · have hflag : h = .int_mut_locked_by_get_ready_em_events_mutex_ m := by
      simpa [polling, Trace.lock] using hh
    subst hflag
    exact .inl ⟨by simp [Mutex.rank], fun fd hfd => by cases hfd⟩
  subst hg₃
  refine (keeps_unlock (by simp [polling, Trace.lock])).mono (fun _ hw => hw) fun _ g₄ hg₄ => ?_
  subst hg₄
  simpa [polling, Trace.lock, WP] using hQ

theorem unlockInterestMutexIfLocked_wp {Q : Unit → Trace M → Prop} {kept : Option M}
    (hkept : ∀ m' ∈ kept, m' = m) (hQ : Q () (polling m none)) :
    WP Apart (traces T M) t (unlockInterestMutexIfLocked m) (polling m kept) Q X := by
  have hpoll : .poll m ∈ (polling m kept).stack := by cases kept <;> exact List.mem_cons_self
  refine ⟨⟨by cases kept <;> simp [polling], hpoll⟩, (keeps_lock fun m' hm => ?_).mono
    (fun _ hw => hw) fun _ g₁ hg₁ => ?_⟩
  · cases hm
    exact hpoll
  subst hg₁
  -- the flag says whether this thread has locked `interest_mutex_`
  rintro G w hg hinv -
  have hflag := Traced.flag_iff (m := m) hinv (by rw [hg]; exact hpoll)
  refine ⟨G t, by rw [Function.update_eq_self]; exact hinv, ?_⟩
  rw [hg] at hflag ⊢
  cases kept with
  | none =>
    have hfalse : (w.shared.emee m).int_mut_locked_by_get_ready_em_events_ = false := by
      simpa [polling, Trace.lock] using hflag
    simp only [hfalse]
    refine (keeps_unlock (by simp [polling, Trace.lock])).mono (fun _ hw => hw) fun _ g₂ hg₂ => ?_
    subst hg₂
    simpa [polling, Trace.lock, WP] using hQ
  | some m' =>
    obtain rfl := hkept m' rfl
    have htrue : (w.shared.emee m').int_mut_locked_by_get_ready_em_events_ = true :=
      hflag.mpr rfl
    simp only [htrue]
    refine (keeps_release (g := (polling m' (some m')).lock _) hpoll rfl).mono (fun _ hw => hw)
      fun _ g₂ hg₂ => ?_
    subst hg₂
    refine (keeps_unlock (by simp [polling, Trace.lock])).mono (fun _ hw => hw) fun _ g₃ hg₃ => ?_
    subst hg₃
    refine (keeps_unlock (by simp [polling, Trace.lock])).mono (fun _ hw => hw) fun _ g₄ hg₄ => ?_
    subst hg₄
    simpa [polling, Trace.lock, WP] using hQ

/-! ## `poll` -/

/-- What the trace of a thread says where it calls a procedure. -/
def Calls : Proc M → Trace M → Prop
  | .poll m _, g => g = polling m none
  | .eventLoop m _, g => g = polling m none
  | _, g => g.held = [] ∧ g.kept = none

def Ended (g : Trace M) : Prop := g.held = [] ∧ g.kept = none

/-- What the end of a procedure says. -/
def After : Option (Proc M) → Trace M → Prop
  | none, g => Ended g
  | some c, g => Calls c g

theorem Balanced.dropTimer {timer : Option Fd} :
    Balanced t (EpollEquiv.dropTimer timer : Code M Unit) g := by
  cases timer with
  | none => exact Balanced.pure
  | some fd => exact Balanced.modify fun _ _ => rfl

/-- The ways in which `poll` ends. -/
theorem unlock_wp {kept : Option M} (hkept : ∀ m' ∈ kept, m' = m) :
    WP Apart (traces T M) t (do
      unlockInterestMutexIfLocked m
      pure none) (polling m kept) After Ended :=
  WP.bind (unlockInterestMutexIfLocked_wp hkept ⟨rfl, rfl⟩)

/-- With `interest_mutex_`; nothing throws. -/
theorem takeReady_wp {Q : Unit → Trace M → Prop} (hQ : Q () (polling m (some m))) :
    WP Apart (traces T M) t (takeReady m) (polling m (some m)) Q X := by
  have hwait : (polling m (some m)).MayWait (.ready_mutex_ m) :=
    (Trace.open_of_nil (g := polling m none) rfl).interest_ready m
  have hflag := flag_setEmee (m := m) (f := fun s => { s.emee m with
    ready_evm_events_out := (s.emee m).ready_
    ready_ := ∅ }) fun _ => rfl
  refine ⟨hwait, (keeps_lock (l := .ready_mutex_ m) fun m' hm => by cases hm).mono (fun _ hw => hw)
    fun _ g₁ hg₁ => ?_⟩
  refine (keeps_change hflag).mono (fun _ hw => hw) fun _ g₂ hg₂ => ?_
  rw [hg₂, hg₁]
  exact Balanced.unlock.mono (fun _ hw => hw) fun _ g₃ hg₃ => hg₃ ▸ hQ

theorem prune_wp {Q : Unit → Trace M → Prop} (hQ : Q () g) :
    WP Apart (traces T M) t (prune m) g Q X := by
  have hflag := flag_setEmee (m := m) (f := fun s => { s.emee m with
    interest_ := (s.emee m).interest_.filter fun fd =>
      fd ∉ (s.emee m).ready_evm_events_out ∨ (s.event fd).flags_.persist }) fun _ => rfl
  exact WP.modify ((keeps_change hflag).mono (fun _ hw => hw) fun _ _ hg => hg ▸ hQ)

theorem finishPoll_wp :
    WP Apart (traces T M) t (finishPoll m) (polling m none) After Ended := by
  refine WP.bind (lockInterestMutex_wp (WP.bind (takeReady_wp (WP.bind (prune_wp ?_)))))
  exact unlock_wp fun m' hm => (Option.some.inj hm).symm

theorem poll_wp {timed : Bool} :
    WP Apart (traces T M) t (poll S m timed) (polling m none) After Ended := by
  have hended : Ended (polling m none) := ⟨rfl, rfl⟩
  unfold poll
  split
  · refine Balanced.andThen (Balanced.act (fun _ _ => rfl) fun _ => Balanced.pure) hended fun fd => ?_
    refine Balanced.andThen (Balanced.ctl rfl).attempt hended fun added => ?_
    split
    · exact rfl
    · exact Balanced.dropTimer.andThen hended fun _ => unlock_wp fun m' hm => by cases hm
  · exact rfl

theorem eventLoop_wp {timer : Option Fd} :
    WP Apart (traces T M) t (eventLoop S m timer) (polling m none) After Ended := by
  have hended : Ended (polling m none) := ⟨rfl, rfl⟩
  have hstack : ∀ fd, .renewEv fd ∉ (polling m none).stack := fun fd hfd => by
    simp [polling] at hfd
  refine (Balanced.within (f := .event_base_loop m timer.isSome) (fun m' => nofun)
    Balanced.ask).andThen hended fun answer => ?_
  cases answer with
  | callback fd timeout => exact (Balanced.eventCallbackFn rfl hstack).andThen hended fun _ => rfl
  | error => exact Balanced.dropTimer.andThen hended fun _ => rfl
  | idle => exact Balanced.dropTimer.andThen hended fun _ => unlock_wp fun m' hm => by cases hm
  | ok =>
    cases timer with
    | none => exact finishPoll_wp
    | some fd =>
      have hopen : (polling m none).Open := Trace.open_of_nil rfl
      have hremove : Balanced t (removeSpecialTimerFromInterestAndReady m fd) (polling m none) :=
        Balanced.guarded (hopen.interest m) (Balanced.guarded (hopen.interest_ready m)
          (Balanced.act Balanced.eraseBoth fun _ => Balanced.pure))
      refine hremove.andThen hended fun only => Balanced.dropTimer.andThen hended fun _ => ?_
      split
      · exact unlock_wp fun m' hm => by cases hm
      · exact finishPoll_wp

/-! ## Calls -/

theorem once_wp {code : Code M α} (hcode : Balanced t code g) (h : Ended g) :
    WP Apart (traces T M) t (once code) g After Ended :=
  hcode.andThen h fun _ => h

theorem again_wp {code : Code M Bool} {c : Proc M} (hcode : Balanced t code g) (h : Ended g)
    (hc : Calls c g) : WP Apart (traces T M) t (again c code) g After Ended := by
  refine hcode.andThen h fun waited => ?_
  split
  · exact hc
  · exact h

theorem body_wp {c : Proc M} (h : Calls c g) :
    WP Apart (traces T M) t (c.body S) g After Ended := by
  cases c with
  | em_event_new type flags actual_fd blocking initval emee =>
    exact once_wp (Balanced.modify fun _ _ => rfl) h
  | ctl op m fd events => exact once_wp (Balanced.ctl h.1) h
  | read fd => exact WP.ite (fun _ => h) fun _ => again_wp (Balanced.emEventCtr_read h.1) h h
  | write fd val =>
    have hwait := Trace.mayWait_of_nil h.1 fd
    exact WP.ite (fun _ => again_wp (Balanced.writeProt hwait fun _ => h.1) h h) fun _ => h
  | settime fd running emee =>
    exact once_wp (Balanced.ite (fun _ => Balanced.emEventTmrFd_settime h.1)
      fun _ => Balanced.emEvent_settime) h
  | closeEvent fd => exact once_wp (Balanced.closeEvent h.1) h
  | poll m timed =>
    obtain rfl : g = polling m none := h
    exact poll_wp
  | eventLoop m timer =>
    obtain rfl : g = polling m none := h
    exact eventLoop_wp

end

variable (S) in
/-- The threads call what they call with no mutex locked. -/
def outline : Outline Apart (traces T M) (procs S) where
  pre := Calls
  idle g := g = {}
  done := Ended
  start G w t c f hname hidle hinv hstart := by
    refine ⟨_, Traced.setStack_start hinv hidle (hstart f hname), ?_⟩
    cases c with
    | poll m timed =>
      cases hname
      rfl
    | eventLoop m timer => cases hname
    | _ => exact ⟨rfl, rfl⟩
  body t c g h := WP.mono (fun next _ hnext => match next with
    | none => hnext
    | some _ => hnext) (fun _ hg => hg) (body_wp h)
  finish _ _ _ hdone hinv := ⟨{}, Traced.setStack_nil hinv hdone.1 hdone.2, rfl⟩

theorem start_sound : (outline (T := T) S).Sound (start T) :=
  ⟨fun _ => {}, traced_init renewals, fun _ => rfl⟩

/-! ## No cycle -/

section

variable {G : T → Trace M} {w : World T (Mutex M) (Call M) (State M)}

open Classical in
/-- The order in one state: the counter of a timer that is being renewed comes first. -/
noncomputable def rankIn (w : World T (Mutex M) (Call M) (State M)) : Mutex M → Nat
  | .counter_val_mutex_ fd =>
    if ∃ t, .renewEv fd ∈ w.stack t then 0 else (Mutex.counter_val_mutex_ fd : Mutex M).rank
  | l => l.rank

omit [DecidableEq M] [DecidableEq T] in
theorem rankIn_le (l : Mutex M) : rankIn w l ≤ l.rank := by
  cases l with
  | counter_val_mutex_ fd =>
    simp only [rankIn]
    split
    · exact Nat.zero_le _
    · exact Nat.le_refl _
  | _ => exact Nat.le_refl _

omit [DecidableEq M] [DecidableEq T] in
/-- What a thread has locked comes before what it waits for. -/
theorem Traced.rankIn_lt (h : Traced renewals G w) {u : T} {l₁ l₂ : Mutex M} (hheld : l₁ ∈ (G u).held)
    (hwait : (G u).MayWait l₂)
    (hne : ∀ m, l₂ ≠ .int_mut_locked_by_get_ready_em_events_mutex_ m) :
    rankIn w l₁ < rankIn w l₂ := by
  have hbefore : (G u).Before l₁ l₂ := by
    cases l₂ with
    | int_mut_locked_by_get_ready_em_events_mutex_ m => exact absurd rfl (hne m)
    | _ => exact hwait.2 l₁ hheld
  rcases hbefore with ⟨hlt, hcounter⟩ | ⟨fd, rfl, hrenew, hset⟩
  · refine Nat.lt_of_le_of_lt (rankIn_le l₁) (Nat.lt_of_lt_of_eq hlt ?_)
    cases l₂ with
    | counter_val_mutex_ fd =>
      -- the callback of a timer: nobody renews it
      obtain ⟨hexpire, hown⟩ := hcounter fd rfl
      have hnot : ¬∃ t, .renewEv fd ∈ w.stack t := by
        rintro ⟨t, ht⟩
        rw [h.stack t] at ht
        by_cases htu : t = u
        · exact hown (htu ▸ ht)
        · exact h.apart t u htu _ ht _ hexpire rfl
      rw [rankIn, if_neg hnot]
    | _ => rfl
  · have hzero : rankIn w (.counter_val_mutex_ fd) = 0 :=
      if_pos ⟨u, by rw [h.stack u]; exact hrenew⟩
    rw [hzero]
    rcases hset with rfl | ⟨m, rfl⟩ | ⟨m, rfl⟩ <;> simp [rankIn, Mutex.rank]

end

/-- A state that the outline fits. -/
theorem not_deadlocked_of_sound {c : Config T (Mutex M) (Call M) Answer (State M) (Proc M)}
    (h : (outline S).Sound c) : ¬WaitsFor.Deadlocked c.Waits := by
  obtain ⟨G, hinv, hwants⟩ := h.waiting
  refine WaitsFor.not_deadlocked_of_rank (fun t => (c.wants t).elim 0 (rankIn c.world)) ?_
  rintro s t u v - ⟨l₂, ht, hu⟩ ⟨l₃, hu', hv⟩
  have hheld : l₂ ∈ (G u).held := (hinv.owner u l₂).mp hu
  have hwait : (G u).MayWait l₃ := hwants u l₃ hu'
  -- the mutex of the flag is locked by the thread that polls, and no other one wants it
  have hne : ∀ m, l₃ ≠ .int_mut_locked_by_get_ready_em_events_mutex_ m := by
    rintro m rfl
    have hlocked := (hinv.owner v _).mp hv
    by_cases huv : u = v
    · exact hwait.1 (huv ▸ hlocked)
    · exact hinv.apart u v huv _ hwait.2 _ (hinv.poller v m hlocked) rfl
  simpa [ht, hu'] using hinv.rankIn_lt hheld hwait hne

/-- **No deadlock.**  In a run in which no timer is renewed while its callback counts the expiry,
and in which no two threads poll one `EventMethEpollEquiv`, the threads never wait for each other
in a cycle, nor one for itself. -/
theorem no_deadlock (S : Setting M) (events : List (Locked.Event T Answer (Proc M)))
    (h : Machine.Always (Config.step (procs S)) Apart.Met (start T) events) :
    ¬WaitsFor.Deadlocked (Machine.run (Config.step (procs S)) (start T) events).Waits :=
  not_deadlocked_of_sound ((outline S).run_sound events (start T) start_sound h)

/-! ## A timer that is read while it expires -/

/-- The first event, a timer. -/
def firstTimer : Fd := ⟨.EmEvTimer, 0⟩

/-- A thread goes on for some steps. -/
def goes {T : Type} (t : T) (steps : Nat) (answer : Answer) :
    List (Locked.Event T Answer (Proc M)) :=
  List.replicate steps (.go t answer)

/-- A thread makes a timer, adds it, and polls for `steps` steps with the timer expiring.  Then
another one reads it. -/
def expiring (steps reading : Nat) : List (Locked.Event Bool Answer (Proc Unit)) :=
  .start false (.em_event_new .EmEvTimer { read := true } false false 0 none) ::
      goes false 2 .ok ++
    .start false (.ctl .Add () firstTimer { read := true, persist := true }) :: goes false 20 .ok ++
    .start false (.poll () false) :: goes false steps (.callback firstTimer true) ++
    .start true (.read firstTimer) :: goes true reading .ok

/-- In the callback for the second expiry the one thread has `interest_mutex_` and waits for the
counter; the other one has that, and renews the timer. -/
theorem timer_deadlock :
    WaitsFor.Deadlocked (Machine.run (Config.step (procs ⟨[()], true⟩)) (start Bool)
      (expiring 34 10)).Waits := by
  have hcallback : (Machine.run (Config.step (procs ⟨[()], true⟩)) (start Bool)
      (expiring 34 10)).wants false = some (.counter_val_mutex_ firstTimer) := by decide
  have hcounter : (Machine.run (Config.step (procs ⟨[()], true⟩)) (start Bool)
      (expiring 34 10)).world.owner (.counter_val_mutex_ firstTimer) = some true := by
    decide
  have hread : (Machine.run (Config.step (procs ⟨[()], true⟩)) (start Bool)
      (expiring 34 10)).wants true = some (.interest_mutex_ ()) := by decide
  have hinterest : (Machine.run (Config.step (procs ⟨[()], true⟩)) (start Bool)
      (expiring 34 10)).world.owner (.interest_mutex_ ()) = some false := by decide
  exact ⟨false, .tail (.single ⟨_, hcallback, hcounter⟩) ⟨_, hread, hinterest⟩⟩

/-- Read between two callbacks. -/
theorem no_deadlock_between :
    ¬WaitsFor.Deadlocked (Machine.run (Config.step (procs ⟨[()], true⟩)) (start Bool)
      (expiring 23 30)).Waits :=
  no_deadlock ⟨[()], true⟩ (expiring 23 30) (by decide)

end Pistache.Eventmeth.EpollEquiv
