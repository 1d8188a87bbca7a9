import Pistache.Eventmeth.DeadEvents
import Pistache.Eventmeth.NoDeadlock

/-!
# No dead event is kept

`poll` with its own timer, and all calls.

* `no_dead_event` — no event in a set has been deleted, in any orderly run.
* `dead_timer` — where `event_base_loop` returns without events, the timer of the poll has been.
-/

set_option autoImplicit false

namespace Pistache.Eventmeth.EpollEquiv

open Locked

variable {M T : Type} [DecidableEq M] [DecidableEq T] {S : Setting M} {t : T} {g : Place M}
variable {m : M} {fd : Fd} {E : State M → Prop} {G : T → Place M}
variable {w : World T (Mutex M) (Call M) (State M)}

/-! ## The mutex that `poll` keeps -/

/-- Where a thread is in `poll`. -/
def Place.polling (m : M) (kept : Option M) (timer : Option Fd) : Place M :=
  ⟨EpollEquiv.polling m kept, timer⟩

omit [DecidableEq M] in
/-- A thread has another `loop_timer_eme`, or none. -/
theorem traced_timer (h : Traced overlaps (fun u => (G u).trace) w) (hg : (G t).trace = g.trace) :
    Traced overlaps (fun u => (Function.update G t g u).trace) w := by
  have hsame : (fun u => (Function.update G t g u).trace) = fun u => (G u).trace := by
    rw [trace_update, ← hg]
    exact Function.update_eq_self t fun u => (G u).trace
  rw [hsame]
  exact h

/-- The thread keeps `interest_mutex_` for the caller. -/
theorem sets_keep (hinv : (sets S).inv G w) (hpoll : .poll m ∈ (G t).trace.stack)
    (hkept : (G t).trace.kept = none) :
    (sets S).inv (Function.update G t { G t with trace := { (G t).trace with kept := some m } })
        (w.change fun s =>
          s.setEmee m { s.emee m with int_mut_locked_by_get_ready_em_events_ := true }) ∧
      ∀ u, u ≠ t → Undisturbed (G u) w.shared (w.shared.setEmee m
        { w.shared.emee m with int_mut_locked_by_get_ready_em_events_ := true }) := by
  have hsame : SameSets w.shared (w.shared.setEmee m
      { w.shared.emee m with int_mut_locked_by_get_ready_em_events_ := true }) := by
    refine ⟨fun _ => rfl, fun _ => rfl, fun _ => rfl, fun m' => ?_, fun m' => ?_, fun m' => ?_, rfl⟩
    all_goals
      by_cases hm : m' = m
      · subst hm
        simp
      · rw [State.setEmee_ne _ _ hm]
  refine ⟨sets_update (hinv.1.change_keep hpoll hkept) ?_, fun u _ => Undisturbed.same hsame (G u)⟩
  refine (hinv.2.same hsame).place (fun m' hm' _ _ => ?_) (fun _ hf => .inl hf) fun _ hfd => hfd
  rw [hkept] at hm'
  cases hm'

/-- The caller gives the events back. -/
theorem sets_release (hinv : (sets S).inv G w) (hpoll : .poll m ∈ (G t).trace.stack)
    (hkept : (G t).trace.kept = some m) (hlock : .interest_mutex_ m ∈ (G t).trace.held) :
    (sets S).inv (Function.update G t { G t with trace := { (G t).trace with kept := none } })
        (w.change fun s => s.setEmee m { s.emee m with
          int_mut_locked_by_get_ready_em_events_ := false
          ready_evm_events_out := ∅ }) ∧
      ∀ u, u ≠ t → Undisturbed (G u) w.shared (w.shared.setEmee m { w.shared.emee m with
        int_mut_locked_by_get_ready_em_events_ := false
        ready_evm_events_out := ∅ }) := by
  obtain ⟨hsorted, hothers⟩ := hinv.2.sets hinv.1 hlock (e := { w.shared.emee m with
    int_mut_locked_by_get_ready_em_events_ := false
    ready_evm_events_out := ∅ }) (Finset.Subset.refl _) (hinv.2.ready m)
    (fun _ hfd => absurd hfd (Finset.notMem_empty _)) (.inl (Finset.empty_subset _))
  refine ⟨sets_update (hinv.1.change_release hpoll hkept) (hsorted.place ?_ (fun _ hf => .inl hf)
    fun _ hfd => hfd), hothers⟩
  rintro m' hm' - ⟨fd, hfd⟩
  obtain rfl : m = m' := Option.some.inj (hkept.symm.trans hm')
  rw [State.setEmee_self] at hfd
  exact absurd hfd (Finset.notMem_empty fd)

namespace Polling

variable {X : View (Place M) (State M) → Prop}

theorem lockInterestMutex :
    Triple (Orderly S) (sets S) t (.polling m none none) (fun _ => True)
      (EpollEquiv.lockInterestMutex m) (.polling m (some m) none) (fun _ _ => True) X := by
  have hpoll : .poll m ∈ (Place.polling m none none).trace.stack := List.mem_cons_self
  -- the mutex of the flag, the flag, `interest_mutex_`, and the first one again
  refine Triple.lock (b := (Place.polling m none none).lock _) (fun G w hg hinv hfree =>
    sets_lock hinv hg hfree fun m' hm' => ?_) (fun _ _ h => h.of_lock) ?_
  · cases hm'
    exact hpoll
  refine Triple.act (b := fun _ => ⟨⟨[.int_mut_locked_by_get_ready_em_events_mutex_ m], [.poll m],
    some m⟩, none⟩) (J := fun _ _ => True) (fun G w hg hinv _ => ?_) (fun _ => .const) fun _ => ?_
  · have hkeep := sets_keep (t := t) (m := m) hinv (by rw [hg]; exact hpoll) (by rw [hg]; rfl)
    rw [hg] at hkeep
    exact ⟨hkeep.1, hkeep.2, trivial⟩
  refine Triple.lock (b := Place.lock _ _) (fun G w hg hinv hfree =>
    sets_lock hinv hg hfree nofun) (fun _ _ h => h.of_lock) ?_
  refine Triple.unlock (b := .polling m (some m) none) (J := fun _ => True)
    (fun G w hg hinv => ?_) (fun _ _ => trivial) .const (Triple.pure fun _ _ => trivial)
  have hunlock := sets_unlock (l := .int_mut_locked_by_get_ready_em_events_mutex_ m) hinv hg
    (by simp [Place.lock, Trace.lock]) nofun
  simpa [Place.polling, polling, Place.lock, Trace.lock] using hunlock

theorem unlockInterestMutexIfLocked {kept : Option M} (hkept : ∀ m' ∈ kept, m' = m) :
    Triple (Orderly S) (sets S) t (.polling m kept none) (fun _ => True)
      (EpollEquiv.unlockInterestMutexIfLocked m) (.polling m none none) (fun _ _ => True) X := by
  have hpoll : .poll m ∈ (Place.polling m kept none).trace.stack := by
    cases kept <;> exact List.mem_cons_self
  refine Triple.lock (b := (Place.polling m kept none).lock _) (fun G w hg hinv hfree =>
    sets_lock hinv hg hfree fun m' hm' => ?_) (fun _ _ h => h.of_lock) ?_
  · cases hm'
    exact hpoll
  -- the flag says whether this thread has locked `interest_mutex_`
  refine Triple.look (N := fun s => (s.emee m).int_mut_locked_by_get_ready_em_events_ = true ↔
    kept = some m) (fun G w hg hinv _ => ?_) fun s hflag => ?_
  · have hflag := hinv.1.flag_iff (t := t) (m := m) (by rw [hg]; exact hpoll)
    rw [hg] at hflag
    cases kept <;> exact hflag
  have hunlock : ∀ G w, G t = (Place.polling m none none).lock
      (.int_mut_locked_by_get_ready_em_events_mutex_ m) → (sets S).inv G w →
        (sets S).inv (Function.update G t (.polling m none none))
          (w.setOwner (.int_mut_locked_by_get_ready_em_events_mutex_ m) none) := by
    intro G w hg hinv
    have hunlock := sets_unlock (l := .int_mut_locked_by_get_ready_em_events_mutex_ m) hinv hg
      List.mem_cons_self fun m' hm' => by cases hm'
    simpa [Place.polling, polling, Place.lock, Trace.lock] using hunlock
  cases kept with
  | none =>
    have hfalse : (s.emee m).int_mut_locked_by_get_ready_em_events_ = false := by simpa using hflag
    simp only [hfalse]
    exact Triple.unlock hunlock (fun _ _ => trivial) .const (Triple.pure fun _ _ => trivial)
  | some m' =>
    obtain rfl := hkept m' rfl
    have htrue : (s.emee m').int_mut_locked_by_get_ready_em_events_ = true := hflag.mpr rfl
    simp only [htrue]
    refine Triple.act (b := fun _ => ⟨⟨[.int_mut_locked_by_get_ready_em_events_mutex_ m',
      .interest_mutex_ m'], [.poll m'], none⟩, none⟩) (J := fun _ _ => True)
      (fun G w hg hinv _ => ?_) (fun _ => .const) fun _ => ?_
    · have hrelease := sets_release (t := t) (m := m') hinv (by rw [hg]; exact hpoll)
        (by rw [hg]; rfl) (by rw [hg]; exact List.mem_cons_of_mem _ List.mem_cons_self)
      rw [hg] at hrelease
      exact ⟨hrelease.1, hrelease.2, trivial⟩
    refine Triple.unlock (b := (Place.polling m' none none).lock _) (J := fun _ => True)
      (fun G w hg hinv => ?_) (fun _ _ => trivial) .const
        (Triple.unlock hunlock (fun _ _ => trivial) .const (Triple.pure fun _ _ => trivial))
    have hout := sets_unlock (l := .interest_mutex_ m') hinv hg
      (List.mem_cons_of_mem _ List.mem_cons_self) fun m hm fd => by
        cases hm
        exact hinv.2.not_out hinv.1 (t := t)
          (by rw [hg]; exact List.mem_cons_of_mem _ List.mem_cons_self) (by rw [hg]; rintro ⟨⟩) fd
    simpa [Place.polling, polling, Place.lock, Trace.lock] using hout

/-! ## `poll` -/

/-- With `interest_mutex_`; nothing throws, and nothing is ready behind it. -/
theorem takeReady :
    Triple (Orderly S) (sets S) t (.polling m (some m) none) (fun _ => True)
      (EpollEquiv.takeReady m) (.polling m (some m) none) (fun _ s => (s.emee m).ready_ = ∅) X := by
  have hlock : .interest_mutex_ m ∈ (Place.polling m (some m) none).trace.held := List.mem_cons_self
  have hready := Lasting.ready hlock
  refine Triple.lock (b := (Place.polling m (some m) none).lock _) (fun G w hg hinv hfree =>
    sets_lock hinv hg hfree nofun) (fun _ _ h => h.of_lock) ?_
  refine Does.change (J := fun s => (s.emee m).ready_ = ∅) (List.mem_cons_of_mem _ hlock)
    (fun _ => rfl) (fun G w _ hinv _ => ⟨⟨?_, ?_, ?_, .inr rfl⟩, by simp⟩)
    (hready.mono fun _ _ h => h.of_lock).stable fun _ => ?_
  · exact Finset.Subset.refl _
  · exact Finset.empty_subset _
  · exact fun fd hfd => .inl (hinv.2.ready m hfd)
  refine Triple.unlock (fun G w hg hinv => ?_) (fun _ hs => hs) hready.stable
    (Triple.pure fun _ hs => hs)
  have hunlock := sets_unlock (l := .ready_mutex_ m) hinv hg List.mem_cons_self nofun
  simpa [Place.lock, Trace.lock] using hunlock

/-- Events that have been given out may leave `interest_`. -/
theorem prune :
    Triple (Orderly S) (sets S) t (.polling m (some m) none) (fun s => (s.emee m).ready_ = ∅)
      (EpollEquiv.prune m) (.polling m (some m) none) (fun _ _ => True) X := by
  refine Does.sets List.mem_cons_self (fun _ => rfl)
    (fun G w _ hinv hempty => ⟨.erase ?_ ?_, trivial⟩) .const
  · exact Finset.filter_subset _ _
  · rw [hempty]
    exact Finset.empty_subset _

/-- The `loop_timer_eme` that has been taken out of the sets is deleted. -/
theorem dropTimer {timer : Option Fd} :
    Triple (Orderly S) (sets S) t (.polling m none timer) (fun s => ∀ fd ∈ timer, Away none fd s)
      (EpollEquiv.dropTimer timer : Code M Unit) (.polling m none none) (fun _ _ => True) X := by
  cases timer with
  | none => exact Triple.pure fun _ _ => trivial
  | some fd =>
    refine Triple.modify (fun G w hg hinv haway => ?_) .const
    have htimer : fd ∈ (G t).timer := by
      rw [hg]
      rfl
    have hplace : Sorted S (Function.update G t (.polling m none none)) w.shared :=
      hinv.2.place (fun m' hm' _ _ => by rw [hg] at hm'; cases hm')
        (fun f hf => .inl (by rw [hg]; exact hf)) nofun
    refine ⟨⟨(traced_timer hinv.1 (by rw [hg]; rfl)).change fun _ _ => rfl,
      hplace.delete (haway fd rfl) (fun u f hf hfd => ?_) fun u hu => ?_⟩,
      fun u _ => Undisturbed.delete _ fd _, trivial⟩
    · have hno := (hplace.used u f hf fd hfd).1
      rw [(hinv.2.timer t fd htimer).1] at hno
      cases hno
    · by_cases hut : u = t
      · subst hut
        rw [Function.update_self] at hu
        cases hu
      · rw [Function.update_of_ne hut] at hu
        exact hut (hinv.2.timers u t fd hu htimer)

theorem removeSpecialTimerFromInterestAndReady :
    Does S t (.polling m none (some fd)) (Attached m fd)
      (EpollEquiv.removeSpecialTimerFromInterestAndReady m fd : Code M Bool)
      (fun _ => Away none fd) fun _ => True := by
  have haway : ∀ g : Place M, g.timer = some fd → Stable (Undisturbed g) (Away none fd) :=
    fun g hg => (Lasting.away (.inr hg)).stable
  refine Does.guarded nofun rfl (Does.guarded (g := Place.lock _ _) nofun rfl ?_
    (fun _ => haway (Place.lock _ _) rfl) .const) (fun _ => haway _ rfl) .const
  refine Triple.act (b := fun _ => _) (J := fun _ => Away none fd) (fun G w hg hinv hatt => ?_)
    (fun _ => haway (Place.lock (Place.lock _ _) _) rfl) fun _ => Triple.pure fun _ hs => hs
  have hlock : .interest_mutex_ m ∈ (G t).trace.held := by
    rw [hg]
    exact List.mem_cons_of_mem _ List.mem_cons_self
  obtain ⟨hinv', hothers⟩ := erased fd hinv hlock
  refine ⟨?_, hothers, away_erased hinv hlock (by rw [hg]; rfl) hatt⟩
  rw [← hg, Function.update_eq_self]
  exact hinv'

/-- A new `loop_timer_eme` is in no set. -/
theorem newTimer_wp {v : View (Place M) (State M)}
    (hv : Ends (.polling m none none) (fun _ => True) v) :
    WP (Orderly S) (sets S).ghost t (newTimer : Code M Fd) v
      (fun fd => Ends (.polling m none (some fd)) (Away none fd)) X := by
  obtain ⟨base, knows⟩ := v
  obtain ⟨rfl, -⟩ := hv
  refine (Rely.keeps (b := fun w => .polling m none (some ⟨.EmEvReg, w.shared.next⟩))
    (J := fun w => Away none ⟨.EmEvReg, w.shared.next⟩) fun G w hg hinv _ _ _ => ?_).mono
      (fun _ hw => hw) fun w v' hv' => ?_
  · have haway : Away none ⟨.EmEvReg, w.shared.next⟩ w.shared := fun m' _ hl =>
      Nat.lt_irrefl _ (hinv.2.fresh _ (hinv.2.listed m' _ hl).1)
    obtain ⟨hsorted, hothers⟩ := hinv.2.alloc (t := t) .EmEvReg (e := { loop_timer := true })
      (g := .polling m none (some ⟨.EmEvReg, w.shared.next⟩)) nofun (by rw [hg]; rfl)
      (.inr ⟨rfl, rfl⟩)
    exact ⟨⟨(traced_timer hinv.1 (by rw [hg]; rfl)).change fun _ _ => rfl, hsorted⟩, hothers, haway,
      (Lasting.away (.inr rfl)).stable⟩
  · subst hv'
    exact ⟨rfl, fun _ hs => hs⟩

/-- The `ctl` of a new `loop_timer_eme`, which is in no set where it has not succeeded. -/
theorem addTimer :
    Does S t (.polling m none (some fd)) (Away none fd)
      (EpollEquiv.ctl S .Add m fd {}).attempt
      (fun added s => (added = some true → Attached m fd s) ∧ (added ≠ some true → Away none fd s))
      E := by
  have hnaming : Naming (Place.polling m none (some fd)) m fd :=
    ⟨.inr rfl, fun f hf p hp => absurd (List.mem_singleton.mp hf ▸ hp) nofun,
      fun _ => List.mem_cons_self⟩
  refine Triple.attempt (Triple.mono (Does.ctl (g := .polling m none (some fd)) (.inl hnaming) rfl)
    (fun s hs => ⟨fun _ => hs, .inl hnaming⟩) (fun ok s hs => ⟨fun hok => ?_, fun hno => ?_⟩)
    fun v hv => ⟨hv.1, fun s hs => ⟨nofun, fun _ => hv.2 s hs rfl⟩⟩)
  · exact hs.2 (Option.some.inj hok)
  · exact hs.1 (by simpa using hno) rfl

end Polling

/-! ## Calls -/

/-- Where a thread is in a call. -/
def Place.inCall (f : Call M) : Place M := ⟨⟨[], [f], none⟩, none⟩

/-- What a thread has and knows where it calls a procedure. -/
def Calling (S : Setting M) : Proc M → View (Place M) (State M) → Prop
  | .em_event_new _ _ _ _ _ emee, v =>
    Ends (.inCall .em_event_new) (fun _ => True) v ∧ ∀ m ∈ emee, m ∈ S.emee_cptr_set_
  | .eventLoop m timer, v => Ends (.polling m none timer) (Timed (.polling m none timer) m) v
  | .ctl _ m fd _, v => Ends (.inCall (.ctl m fd)) (fun _ => True) v
  | .read fd, v => Ends (.inCall (.read fd)) (fun _ => True) v
  | .write fd _, v => Ends (.inCall (.write fd)) (fun _ => True) v
  | .settime fd _ emee, v => Ends (.inCall (.settime fd emee)) (fun _ => True) v
  | .closeEvent fd, v => Ends (.inCall (.closeEvent fd)) (fun _ => True) v
  | .poll m _, v => Ends (.inCall (.poll m)) (fun _ => True) v

/-- A call ends with no mutex locked. -/
def Over (v : View (Place M) (State M)) : Prop :=
  v.base.trace.held = [] ∧ v.base.trace.kept = none

/-- What the end of a procedure says. -/
def Behind (S : Setting M) : Option (Proc M) → View (Place M) (State M) → Prop
  | none, v => Over v
  | some c, v => Calling S c v

omit [DecidableEq M] in
theorem poll_over {v : View (Place M) (State M)} {timer : Option Fd}
    (h : Ends (.polling m none timer) E v) : Over v := by
  rw [Over, h.1]
  exact ⟨rfl, rfl⟩

namespace Polling

variable {v : View (Place M) (State M)}

/-- The end of `poll` without events. -/
theorem noEvents_wp (hv : Ends (.polling m none none) E v) :
    WP (Orderly S) (sets S).ghost t (do
      EpollEquiv.unlockInterestMutexIfLocked m
      pure none : Code M (Option (Proc M))) v (Behind S) Over :=
  ((unlockInterestMutexIfLocked nofun).pre fun _ _ => trivial).andThen hv (fun _ hv => hv)
    fun _ _ hv' => poll_over hv'

theorem finishPoll_wp (hv : Ends (.polling m none none) E v) :
    WP (Orderly S) (sets S).ghost t (finishPoll m) v (Behind S) Over := by
  have hfinish : Triple (Orderly S) (sets S) t (.polling m none none) E (do
      EpollEquiv.lockInterestMutex m
      EpollEquiv.takeReady m
      EpollEquiv.prune m
      EpollEquiv.unlockInterestMutexIfLocked m : Code M Unit) (.polling m none none)
      (fun _ _ => True) Over :=
    Triple.bind (lockInterestMutex.pre fun _ _ => trivial) fun _ => Triple.bind takeReady fun _ =>
      Triple.bind prune fun _ => unlockInterestMutexIfLocked fun m' hm => (Option.some.inj hm).symm
  exact hfinish.andThen hv (fun _ hv => hv) fun _ _ hv' => poll_over hv'

theorem poll_wp {timed : Bool}
    (hv : Ends (.polling m none none) (fun _ => True) v) :
    WP (Orderly S) (sets S).ghost t (poll S m timed) v (Behind S) Over := by
  unfold poll
  split
  · refine WP.bind (WP.mono (fun fd v' hv' => ?_) (fun _ hv => hv) (newTimer_wp hv))
    refine (addTimer (E := fun _ => True)).andThen hv' (fun _ => poll_over) fun added v' hv' => ?_
    split
    · exact ⟨hv'.1, fun s hs fd' hfd' => by cases hfd'; exact (hv'.2 s hs).1 rfl⟩
    · next hno =>
      refine Triple.andThen (dropTimer (X := Over)) ⟨hv'.1, fun s hs fd' hfd' => ?_⟩
        (fun _ hv => hv) fun _ v' hv' => noEvents_wp hv'
      cases hfd'
      exact (hv'.2 s hs).2 hno
  · exact ⟨hv.1, fun s hs fd hfd => by cases hfd⟩

/-- What `event_base_loop` may answer. -/
theorem askLoop {timer : Option Fd} :
    Does S t (.polling m none timer) (Timed (.polling m none timer) m)
      (Prog.within (.event_base_loop m timer.isSome) .ask : Code M Answer)
      (fun answer s => (answer = .error ∨ answer = .idle → timer = none) ∧
        Timed (.polling m none timer) m s) fun _ => True := by
  refine Does.within rfl rfl nofun (Triple.ask fun answer G w hg hinv hmet s hs => ⟨?_, hs⟩)
    (fun _ => (Lasting.const.and Timed.lasting).stable) .const
  intro hanswer
  by_contra htimer
  have htimed : timer.isSome = true := Option.isSome_iff_ne_none.mpr htimer
  have hstack : (w.stack t).head? = some (.event_base_loop m true) := by
    rw [hinv.1.stack t]
    show (G t).trace.stack.head? = _
    rw [hg, ← htimed]
    rfl
  obtain ⟨herror, hidle⟩ := hmet _ hstack rfl
  exact hanswer.elim herror hidle

theorem eventLoop_wp {timer : Option Fd}
    (hv : Ends (.polling m none timer) (Timed (.polling m none timer) m) v) :
    WP (Orderly S) (sets S).ghost t (eventLoop S m timer) v (Behind S) Over := by
  refine askLoop.andThen hv (fun _ => poll_over) fun answer v' hv' => ?_
  -- nothing is dropped where the loop has come back without events
  have hnone : answer = .error ∨ answer = .idle →
      Ends (.polling m none timer) (fun s => ∀ fd ∈ timer, Away none fd s) v' := by
    refine fun hanswer => ⟨hv'.1, fun s hs fd hfd => ?_⟩
    rw [(hv'.2 s hs).1 hanswer] at hfd
    cases hfd
  cases answer with
  | callback fd timeout =>
    refine (Does.eventCallbackFn (m := m) rfl).andThen ⟨hv'.1, fun s hs => (hv'.2 s hs).2⟩
      (fun _ => poll_over) fun _ v'' hv'' => hv''
  | error =>
    exact (dropTimer (X := Over)).andThen (hnone (.inl rfl)) (fun _ hv => hv) fun _ _ hv'' => hv''
  | idle =>
    exact (dropTimer (X := Over)).andThen (hnone (.inr rfl)) (fun _ hv => hv)
      fun _ _ hv'' => noEvents_wp hv''
  | ok =>
    cases timer with
    | none => exact finishPoll_wp hv'
    | some fd =>
      refine removeSpecialTimerFromInterestAndReady.andThen
        ⟨hv'.1, fun s hs => (hv'.2 s hs).2 fd rfl⟩ (fun _ => poll_over) fun only v'' hv'' => ?_
      refine (dropTimer (X := Over)).andThen ⟨hv''.1, fun s hs fd' hfd' => ?_⟩ (fun _ hv => hv)
        fun _ v₃ hv₃ => ?_
      · cases hfd'
        exact hv''.2 s hs
      split
      · exact noEvents_wp hv₃
      · exact finishPoll_wp hv₃

end Polling

namespace Calling

variable {α : Type} {v : View (Place M) (State M)} {f : Call M}

omit [DecidableEq M] in
theorem ended (h : Ends (.inCall f) E v) : Over v := by
  rw [Over, h.1]
  exact ⟨rfl, rfl⟩

theorem once {code : Code M α} (hcode : Safe S t (.inCall f) code)
    (hv : Ends (.inCall f) (fun _ => True) v) :
    WP (Orderly S) (sets S).ghost t (EpollEquiv.once code) v (Behind S) Over :=
  hcode.andThen hv (fun _ => ended) fun _ _ hv' => ended hv'

theorem again {code : Code M Bool} {c : Proc M} (hcode : Safe S t (.inCall f) code)
    (hv : Ends (.inCall f) (fun _ => True) v)
    (hc : ∀ v', Ends (.inCall f) (fun _ => True) v' → Calling S c v') :
    WP (Orderly S) (sets S).ghost t (EpollEquiv.again c code) v (Behind S) Over := by
  refine hcode.andThen hv (fun _ => ended) fun waited v' hv' => ?_
  split
  · exact hc v' hv'
  · exact ended hv'

omit [DecidableEq M] in
/-- A call works on its own event. -/
theorem inUse_inCall (hevent : fd ∈ f.event?) (hclose : fd ∉ f.closes?) :
    InUse (.inCall f) fd := ⟨f, List.mem_cons_self, hevent, hclose⟩

omit [DecidableEq M] in
theorem naming_inCall (hnames : f.names? = some (fd, m)) : Naming (.inCall f) m fd where
  names := .inl ⟨f, List.mem_cons_self, hnames⟩
  only f' hf' p hp := by
    rw [List.mem_singleton.mp hf', hnames] at hp
    exact (Option.some.inj hp).symm
  polls := nofun

theorem body_wp {c : Proc M} (h : Calling S c v) :
    WP (Orderly S) (sets S).ghost t (c.body S) v (Behind S) Over := by
  cases c with
  | em_event_new type flags actual_fd blocking initval emee =>
    refine once (f := .em_event_new) (Triple.modify (fun G w hg hinv _ => ?_) .const) h.1
    have hlive : ∀ m ∈ (if type = .EmEvTimer then emee else none), m ∈ S.emee_cptr_set_ := by
      intro m hm
      split at hm
      · exact h.2 m hm
      · cases hm
    obtain ⟨hsorted, hothers⟩ := hinv.2.alloc (t := t) type (g := .inCall .em_event_new) (e :=
        { flags_ := flags
          actual_fd
          blocking
          counter_val_ := if type = .EmEvEventFd then initval else 0
          event_meth_epoll_equiv_impl_ := if type = .EmEvTimer then emee else none })
      hlive (by rw [hg]) (.inl (by rw [hg]))
    exact ⟨⟨(traced_timer hinv.1 (by rw [hg])).change fun _ _ => rfl, hsorted⟩, hothers, trivial⟩
  | ctl op m fd events =>
    have hnaming : Naming (.inCall (.ctl m fd)) m fd := naming_inCall rfl
    exact once (Safe.of_does (Does.ctl (.inl hnaming) rfl) fun s =>
      ⟨(fun hin => nomatch hin), .inl hnaming⟩) h
  | read fd =>
    refine WP.ite (fun _ => ended h) fun _ => again ?_ h fun _ hv' => hv'
    exact Safe.emEventCtr_read (inUse_inCall rfl nofun) rfl rfl
  | write fd val =>
    refine WP.ite (fun _ => again (f := .write fd) ?_ h fun _ hv' => hv') fun _ => ended h
    exact Safe.writeProt (inUse_inCall (f := .write fd) rfl nofun) rfl rfl
  | settime fd running emee =>
    have hhaving : Having (.inCall (.settime fd emee)) emee fd :=
      ⟨fun m hm => naming_inCall (by rw [hm]; rfl),
        fun hnone => ⟨_, List.mem_cons_self, by rw [hnone]; rfl⟩⟩
    refine once (Safe.ite (fun _ => ?_) fun _ => Safe.emEvent_settime hhaving rfl) h
    exact Safe.emEventTmrFd_settime hhaving (inUse_inCall rfl nofun) rfl rfl
  | closeEvent fd => exact once (Safe.closeEvent rfl rfl) h
  | poll m timed => exact Polling.poll_wp h
  | eventLoop m timer => exact Polling.eventLoop_wp h

end Calling

/-! ## Runs -/

section

variable {c : Proc M} {f : Call M}

omit [DecidableEq M] in
/-- What a call names it has been called with. -/
theorem Proc.emee_of_names {p : Fd × M} (hname : c.name = some f) (hp : p ∈ f.names?) :
    p.2 ∈ c.emee? := by
  cases c with
  | ctl op m fd events =>
    cases hname
    cases hp
    rfl
  | settime fd running emee =>
    cases hname
    cases emee with
    | none => cases hp
    | some m => cases hp; rfl
  | _ => cases hname <;> cases hp

omit [DecidableEq M] in
theorem Proc.emee_of_polls (hname : c.name = some f) (hm : m ∈ f.polls?) : m ∈ c.emee? := by
  cases c with
  | poll m timed =>
    cases hname
    exact hm
  | _ => cases hname <;> cases hm

omit [DecidableEq M] [DecidableEq T] in
/-- A call that meets the condition may come onto the stack of a thread. -/
theorem admitted_of_start (hinv : (sets S).inv G w) (hname : c.name = some f)
    (hstart : (Orderly S).start w t c) : Admitted S G w.shared t f := by
  obtain ⟨hmet, hemee⟩ := hstart
  obtain ⟨-, hagrees, husable⟩ := hmet f hname
  refine ⟨fun fd hfd => ?_, fun p hp => hemee _ (Proc.emee_of_names hname hp),
    fun m hm => hemee m (Proc.emee_of_polls hname hm), fun u hu f' hf' => ?_⟩
  · obtain ⟨halive, htimer⟩ := husable fd hfd
    exact ⟨htimer, hinv.2.fresh fd halive, halive⟩
  · exact hagrees u hu f' (by rw [hinv.1.stack u]; exact hf')

omit [DecidableEq M] in
theorem keeps_start (hname : c.name = some f) :
    Keeps (sets S).ghost t ⟨{}, fun _ => True⟩ (fun w => (Orderly S).start w t c) (·.setStack t [f])
      fun _ v' => v' = ⟨.inCall f, fun _ => True⟩ := by
  refine Rely.keeps (R := sets S) (b := fun _ => .inCall f) (J := fun _ _ => True)
    fun G w hg hinv _ hstart _ => ⟨?_, fun _ _ => Undisturbed.refl _ _, trivial, .const⟩
  have hadmitted := admitted_of_start hinv hname hstart
  refine sets_update (hinv.1.setStack_start (by rw [hg]) (hstart.1 f hname).1)
    (hinv.2.place (fun m hm _ _ => by rw [hg] at hm; cases hm) (fun f' hf' => .inr ?_) nofun)
  rw [List.mem_singleton.mp hf']
  exact hadmitted

end

omit [DecidableEq M] in
theorem keeps_finish {v : View (Place M) (State M)} (hv : Over v) :
    Keeps (sets S).ghost t v (fun _ => True) (·.setStack t []) fun _ v' =>
      v' = ⟨{}, fun _ => True⟩ := by
  refine Rely.keeps (R := sets S) (b := fun _ => {}) (J := fun _ _ => True)
    fun G w hg hinv _ _ _ => ⟨?_, fun _ _ => Undisturbed.refl _ _, trivial, .const⟩
  have hheld : (G t).trace.held = [] := by
    rw [hg]
    exact hv.1
  have hkept : (G t).trace.kept = none := by
    rw [hg]
    exact hv.2
  exact sets_update (hinv.1.setStack_nil hheld hkept)
    (hinv.2.place (fun m hm _ _ => by rw [hkept] at hm; cases hm) nofun nofun)

variable (S) in
/-- A thread calls what its caller has not closed. -/
def orderly_outline : Outline (Orderly (T := T) S) (sets S).ghost (procs S) where
  pre := Calling S
  idle v := v = ⟨{}, fun _ => True⟩
  done := Over
  start G w t c f hname hidle hinv hstart := by
    obtain ⟨_, hinv', rfl⟩ := keeps_start hname G w hidle hinv hstart
    refine ⟨_, hinv', ?_⟩
    cases c with
    | eventLoop m timer => cases hname
    | em_event_new type flags actual_fd blocking initval emee =>
      cases hname
      exact ⟨⟨rfl, fun _ _ => trivial⟩, fun m hm => hstart.2 m hm⟩
    | _ =>
      cases hname
      exact ⟨rfl, fun _ _ => trivial⟩
  body t c v h := WP.mono (fun next _ hnext => match next with
    | none => hnext
    | some _ => hnext) (fun _ hv => hv) (Calling.body_wp h)
  finish G w t hdone hinv := by
    obtain ⟨_, hinv', rfl⟩ := keeps_finish hdone G w rfl hinv trivial
    exact ⟨_, hinv', rfl⟩

theorem orderly_start : (orderly_outline (T := T) S).Sound (start T) := by
  refine ⟨fun _ => ⟨{}, fun _ => True⟩, ⟨⟨traced_init overlaps, ?_⟩, fun _ => ⟨trivial, .const⟩⟩,
    fun _ => rfl⟩
  exact
    { ready := fun m => Finset.Subset.refl _
      listed := fun m fd hl => hl.elim (fun h => nomatch h) fun h => nomatch h
      keeper := fun m fd h => nomatch h
      live := fun m fd h => nomatch h
      fresh := fun fd h => nomatch h
      used := fun t f h => nomatch h
      named := fun t f h => nomatch h
      polled := fun t f h => nomatch h
      agree := fun t u _ f h => nomatch h
      timer := fun t fd h => nomatch h
      timers := fun t u fd h => nomatch h }

/-- No set has an event in it that has been deleted, and what is ready is of interest. -/
def NoDeadEvent (s : State M) : Prop :=
  ∀ m, (s.emee m).ready_ ⊆ (s.emee m).interest_ ∧
    ∀ fd ∈ (s.emee m).interest_ ∪ (s.emee m).ready_ ∪ (s.emee m).ready_evm_events_out,
      (s.event fd).alive = true

omit [DecidableEq M] [DecidableEq T] in
theorem Sorted.noDeadEvent {s : State M} (h : Sorted S G s) : NoDeadEvent s := by
  refine fun m => ⟨h.ready m, fun fd hfd => ?_⟩
  rcases Finset.mem_union.mp hfd with hin | hout
  · rcases Finset.mem_union.mp hin with hin | hready
    · exact (h.listed m fd (.inl hin)).1
    · exact (h.listed m fd (.inl (h.ready m hready))).1
  · exact (h.listed m fd (.inr hout)).1

/-- **No dead event is kept.**  In an orderly run no event in a set has been deleted, nor one that
`getReadyEmEvents` has given out, and every ready event is of interest. -/
theorem no_dead_event (S : Setting M) (events : List (Locked.Event T Answer (Proc M)))
    (h : Machine.Always (Config.step (procs S)) (Orderly S).Met (start T) events) :
    NoDeadEvent (Machine.run (Config.step (procs S)) (start T) events).world.shared := by
  obtain ⟨G, hinv, -⟩ := (orderly_outline S).run_sound events (start T) orderly_start h
  exact hinv.1.2.noDeadEvent

/-! ## A poll that times out -/

/-- The first event, the `loop_timer_eme` of a poll. -/
def loopTimer : Fd := ⟨.EmEvReg, 0⟩

/-- A thread polls with a timeout, and `event_base_loop` says that there are no events. -/
def timingOut : List (Locked.Event Bool Answer (Proc Unit)) :=
  .start false (.poll () true) :: goes false 18 .ok ++ goes false 15 .idle

/-- The timer has been deleted and is still of interest. -/
theorem dead_timer :
    ¬NoDeadEvent (Machine.run (Config.step (procs ⟨[()], true⟩)) (start Bool)
      timingOut).world.shared := by
  intro h
  have hinterest : loopTimer ∈ ((Machine.run (Config.step (procs ⟨[()], true⟩)) (start Bool)
      timingOut).world.shared.emee ()).interest_ := by decide
  have hdead : ((Machine.run (Config.step (procs ⟨[()], true⟩)) (start Bool)
      timingOut).world.shared.event loopTimer).alive = false := by decide
  have halive := (h ()).2 loopTimer
    (Finset.mem_union_left _ (Finset.mem_union_left _ hinterest))
  rw [hdead] at halive
  cases halive

/-- A thread makes an event, adds it, and polls with a timeout until the event is ready, while
another one reads it; then it closes it. -/
def closing : List (Locked.Event Bool Answer (Proc Unit)) :=
  let fd : Fd := ⟨.EmEvEventFd, 0⟩
  .start false (.em_event_new .EmEvEventFd { read := true } false false 0 none) ::
      goes false 2 .ok ++
    .start false (.ctl .Add () fd { read := true, persist := true }) :: goes false 20 .ok ++
    .start false (.poll () true) :: .start true (.read fd) :: goes false 17 .ok ++
      goes true 10 .ok ++ goes false 16 (.callback fd false) ++ goes false 34 .ok ++
    .start false (.closeEvent fd) :: goes false 19 .ok

set_option maxRecDepth 8000 in
/-- Where the loop comes back with events, and the event is closed behind the poll. -/
theorem no_dead_event_closing :
    NoDeadEvent (Machine.run (Config.step (procs ⟨[()], true⟩)) (start Bool)
      closing).world.shared := no_dead_event ⟨[()], true⟩ closing (by decide)

end Pistache.Eventmeth.EpollEquiv
