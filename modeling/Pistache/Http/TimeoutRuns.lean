import Pistache.Http.Timeout

/-!
# What becomes of a timeout

`State.Inv` says where an active timer belongs: to a `Timeout` that is there, armed, and knows it
by its descriptor.

* `step_inv` — the operations keep the invariant under the condition, and come to what the
  contract allows.
* `timeouts_behave` — so does every run.
-/

set_option autoImplicit false

namespace Pistache.Http.ResponseTimeout.State

variable {O : Type} [DecidableEq O] {s : State O}

/-! ## The invariant -/

/-- The timer's continuation has called `onTimeout`. -/
def RunsFd (s : State O) (fd : Nat) : Prop := ∃ o, s.running = some (fd, o)

/-- The entry may still be called back. -/
def Waits (s : State O) (fd : Nat) (e : TimerEntry O) : Prop :=
  s.timers fd = some e ∧ e.active ∧ ¬s.RunsFd fd

structure Inv (s : State O) : Prop where
  opened : ∀ fd e, s.timers fd = some e → (s.timerfds fd).isSome
  held : ∀ o t fd, s.timeouts o = some t → t.timerFd = some fd → (s.timerfds fd).isSome
  unique : ∀ o₁ o₂ t₁ t₂ fd, s.timeouts o₁ = some t₁ → s.timeouts o₂ = some t₂ →
    t₁.timerFd = some fd → t₂.timerFd = some fd → o₁ = o₂
  owned : ∀ fd e, s.Waits fd e → s.timeouts e.this = some { armed := true, timerFd := some fd }
  mayFire : ∀ fd e, s.Waits fd e → ∃ r, s.arms e.arm = some r ∧ ¬r.fired ∧ ¬r.disarmed ∧
    r.holder = e.this ∧ ∀ time, s.timerfds fd = some (some time) → r.due ≤ time
  distinct : ∀ fd₁ fd₂ e₁ e₂, s.timers fd₁ = some e₁ → s.timers fd₂ = some e₂ →
    e₁.arm = e₂.arm → fd₁ = fd₂
  fresh : ∀ fd e, s.timers fd = some e → e.arm < s.next
  runs : ∀ fd o, s.running = some (fd, o) → (s.timers fd).isSome ∧
    ∃ t, s.timeouts o = some t ∧ ∀ fd', t.timerFd = some fd' → fd' = fd

omit [DecidableEq O] in
theorem start_inv : Inv (start : State O) := by
  constructor <;> simp [start, Waits]

omit [DecidableEq O] in
/-- What a `Timeout` that may be moved or armed anew is not: the owner of a waiting entry. -/
theorem Inv.not_owner (h : Inv s) {o : O} {fd : Nat} {e : TimerEntry O} {t : Timeout}
    (ht : s.timeouts o = some t) (hpending : ¬s.Pending t) (hwaits : s.Waits fd e) :
    e.this ≠ o := by
  rintro rfl
  have howned := h.owned fd e hwaits
  rw [ht] at howned
  obtain rfl := Option.some.inj howned
  refine hpending ⟨rfl, (fd, e), ?_, hwaits.2.1⟩
  simp [timerEntry, hwaits.1]

theorem construct_inv (h : Inv s) {o : O} (ho : s.timeouts o = none) :
    Inv { s with timeouts := Function.update s.timeouts o (some {}) } := by
  constructor
  · exact h.opened
  · grind [h.held, Function.update_apply]
  · grind [h.unique, Function.update_apply]
  · intro fd e hwaits
    have := h.owned fd e hwaits
    grind [Function.update_apply]
  · exact h.mayFire
  · exact h.distinct
  · exact h.fresh
  · intro fd o' hrun
    have := h.runs fd o' hrun
    grind [Function.update_apply]

/-! ## Disarming -/

omit [DecidableEq O] in
theorem timerEntry_eq {t : Timeout} {fd : Nat} {e : TimerEntry O} (h : s.timerEntry t = some (fd, e)) :
    t.timerFd = some fd ∧ s.timers fd = some e := by
  simp only [timerEntry, Option.bind_eq_some_iff, Option.map_eq_some_iff, Prod.mk.injEq] at h
  obtain ⟨fd', hfd, e', he, rfl, rfl⟩ := h
  exact ⟨hfd, he⟩

theorem disarm_inv (h : Inv s) {o : O} {t : Timeout} (ht : s.timeouts o = some t) :
    Inv (s.disarm o t).1 := by
  unfold disarm
  by_cases harmed : t.armed
  · simp only [harmed, if_true]
    cases hentry : s.timerEntry t with
    | none => exact h
    | some p =>
      obtain ⟨fd, e⟩ := p
      obtain ⟨hfd, he⟩ := timerEntry_eq hentry
      constructor
      · grind [h.opened, Function.update_apply]
      · exact h.held
      · exact h.unique
      · intro fd' e' hwaits
        have := h.owned fd' e'
        grind [Function.update_apply, Waits, RunsFd]
      · intro fd' e' hwaits
        have hold : s.Waits fd' e' ∧ fd' ≠ fd := by
          grind [Function.update_apply, Waits, RunsFd]
        obtain ⟨r, hr, hfired, hdisarmed, hholder, hdue⟩ := h.mayFire fd' e' hold.1
        have howned := h.owned fd' e' hold.1
        have hne : r.holder ≠ o := by
          rintro rfl
          rw [hholder.symm, ht] at howned
          obtain rfl := Option.some.inj howned
          exact hold.2 (Option.some.inj hfd)
        exact ⟨r, by simp [hr, hne], hfired, hdisarmed, hholder, hdue⟩
      · grind [h.distinct, Function.update_apply]
      · have hfresh := h.fresh fd e he
        grind [h.fresh, Function.update_apply]
      · intro fd' o' hrun
        have := h.runs fd' o' hrun
        grind [Function.update_apply]
  · simp only [harmed, if_false, Bool.false_eq_true]
    constructor
    · exact h.opened
    · exact h.held
    · exact h.unique
    · exact h.owned
    · intro fd e hwaits
      obtain ⟨r, hr, hfired, hdisarmed, hholder, hdue⟩ := h.mayFire fd e hwaits
      have hne : r.holder ≠ o := by
        rintro rfl
        have howned := h.owned fd e hwaits
        rw [hholder.symm, ht] at howned
        obtain rfl := Option.some.inj howned
        exact harmed rfl
      exact ⟨r, by simp [hr, hne], hfired, hdisarmed, hholder, hdue⟩
    · exact h.distinct
    · exact h.fresh
    · exact h.runs

theorem disarm_outcome (o : O) (t : Timeout) :
    (s.disarm o t).2 = .returned ∨ (s.disarm o t).2 = .thrown "Timer has not been armed" := by
  unfold disarm
  split
  · split
    · exact .inr rfl
    · exact .inl rfl
  · exact .inl rfl

theorem disarm_timeouts (o : O) (t : Timeout) : (s.disarm o t).1.timeouts = s.timeouts := by
  unfold disarm
  split
  · split <;> rfl
  · rfl

theorem disarm_running (o : O) (t : Timeout) : (s.disarm o t).1.running = s.running := by
  unfold disarm
  split
  · split <;> rfl
  · rfl

theorem disarm_returns {o : O} {t : Timeout} (h : s.Disarmable t) :
    (s.disarm o t).2 = .returned := by
  unfold disarm
  by_cases harmed : t.armed
  · obtain ⟨p, hp⟩ := Option.isSome_iff_exists.1 (h harmed)
    simp [harmed, hp]
  · simp [harmed]

/-- A `Timeout` without a waiting entry can go. -/
theorem erase_inv (h : Inv s) {o : O} {t : Timeout} (ht : s.timeouts o = some t)
    (hpending : ¬s.Pending t) (hrunning : ¬s.Running o) :
    Inv { s with timeouts := Function.update s.timeouts o none } := by
  constructor
  · exact h.opened
  · grind [h.held, Function.update_apply]
  · grind [h.unique, Function.update_apply]
  · intro fd e hwaits
    have hne := h.not_owner ht hpending hwaits
    have := h.owned fd e hwaits
    grind [Function.update_apply]
  · exact h.mayFire
  · exact h.distinct
  · exact h.fresh
  · intro fd o' hrun
    have hne : o' ≠ o := by
      rintro rfl
      exact hrunning ⟨_, hrun, rfl⟩
    have := h.runs fd o' hrun
    grind [Function.update_apply]

theorem disarm_not_pending {o : O} {t : Timeout} (h : s.Disarmable t) :
    ¬(s.disarm o t).1.Pending t := by
  rintro ⟨harmed, p, hp, hactive⟩
  obtain ⟨q, hq⟩ := Option.isSome_iff_exists.1 (h harmed)
  obtain ⟨fd, e⟩ := q
  obtain ⟨hfd, he⟩ := timerEntry_eq hq
  obtain ⟨fd', e'⟩ := p
  obtain ⟨hfd', he'⟩ := timerEntry_eq hp
  obtain rfl := Option.some.inj (hfd.symm.trans hfd')
  simp only [disarm, harmed, if_true, hq, Function.update_self, Option.some.injEq] at he'
  subst he'
  cases hactive

/-! ## Moving -/

theorem move_inv (h : Inv s) {other this : O} {t : Timeout} (ht : s.timeouts other = some t)
    (hmeets : s.Meets (.move other this)) : Inv (s.move other this t) := by
  obtain ⟨hother, hthis, hrunning⟩ := hmeets
  have hne_other : ∀ fd e, s.Waits fd e → e.this ≠ other := fun fd e hwaits =>
    h.not_owner ht (hother t ht) hwaits
  have hne_this : ∀ fd e, s.Waits fd e → e.this ≠ this := by
    intro fd e hwaits heq
    have howned := h.owned fd e hwaits
    rw [heq] at howned
    exact h.not_owner howned (hthis _ howned) hwaits heq
  unfold move
  constructor
  · exact h.opened
  · intro o t' fd ht' hfd
    have hother := h.held other t fd ht
    have := h.held o t' fd
    grind [Function.update_apply]
  · intro o₁ o₂ t₁ t₂ fd h₁ h₂ hfd₁ hfd₂
    have h₁' := h.unique o₁ other t₁ t fd
    have h₂' := h.unique o₂ other t₂ t fd
    have := h.unique o₁ o₂ t₁ t₂ fd
    grind [Function.update_apply]
  · intro fd e hwaits
    have := h.owned fd e hwaits
    have := hne_other fd e hwaits
    have := hne_this fd e hwaits
    grind [Function.update_apply]
  · intro fd e hwaits
    obtain ⟨r, hr, hfired, hdisarmed, hholder, hdue⟩ := h.mayFire fd e hwaits
    have hne : r.holder ≠ other := hholder ▸ hne_other fd e hwaits
    exact ⟨r, by simp [hr, hne], hfired, hdisarmed, hholder, hdue⟩
  · exact h.distinct
  · exact h.fresh
  · intro fd o hrun
    have hne : o ≠ this := by
      rintro rfl
      exact hrunning ⟨_, hrun, rfl⟩
    obtain ⟨hfd, t', ht', hsame⟩ := h.runs fd o hrun
    refine ⟨hfd, ?_⟩
    by_cases heq : o = other
    · exact ⟨{ t with timerFd := none }, by simp [heq], fun _ hnone => by cases hnone⟩
    · exact ⟨t', by simp [heq, hne, ht'], hsame⟩

/-! ## Arming -/

/-- With the descriptor open and in the `Timeout`, before the timer is started. -/
theorem open_inv (h : Inv s) {o : O} {t : Timeout} {fd : Nat} (ht : s.timeouts o = some t)
    (hfd : s.timerfds fd = none) (hpending : ¬s.Pending t) (hrunning : ¬s.Running o) :
    Inv { s with
      timerfds := Function.update s.timerfds fd (some none)
      timeouts := Function.update s.timeouts o (some { t with timerFd := some fd }) } := by
  have hclosed : s.timers fd = none := by
    cases he : s.timers fd with
    | none => rfl
    | some e =>
      have hopen := h.opened fd e he
      rw [hfd] at hopen
      cases hopen
  have hnew : ∀ o' t', s.timeouts o' = some t' → t'.timerFd ≠ some fd := by
    intro o' t' ht' heq
    have hopen := h.held o' t' fd ht' heq
    rw [hfd] at hopen
    cases hopen
  constructor
  · intro fd' e he
    have := h.opened fd' e he
    grind [Function.update_apply]
  · intro o' t' fd' ht' hfd'
    have := h.held o' t' fd'
    grind [Function.update_apply]
  · intro o₁ o₂ t₁ t₂ fd' h₁ h₂ hfd₁ hfd₂
    have := h.unique o₁ o₂ t₁ t₂ fd'
    grind [Function.update_apply]
  · intro fd' e hwaits
    have hne := h.not_owner ht hpending hwaits
    have := h.owned fd' e hwaits
    grind [Function.update_apply]
  · intro fd' e hwaits
    obtain ⟨r, hr, hfired, hdisarmed, hholder, hdue⟩ := h.mayFire fd' e hwaits
    have hne : fd' ≠ fd := by
      rintro rfl
      cases hclosed.symm.trans hwaits.1
    exact ⟨r, hr, hfired, hdisarmed, hholder, by simpa [hne] using hdue⟩
  · exact h.distinct
  · exact h.fresh
  · intro fd' o' hrun
    have hne : o' ≠ o := by
      rintro rfl
      exact hrunning ⟨_, hrun, rfl⟩
    have := h.runs fd' o' hrun
    grind [Function.update_apply]

theorem settime_kept (now : Int) {duration : Int} (h : Kept duration) :
    ∃ expiry, settime now (millis duration) = some expiry ∧
      ∀ time, expiry = some time → now + duration ≤ time := by
  obtain ⟨hnonneg, hkept⟩ := h
  unfold settime
  rw [if_neg (by omega)]
  by_cases hzero : itimerspec (millis duration) = 0
  · exact ⟨none, if_pos hzero, fun _ h => by cases h⟩
  · refine ⟨some (now + itimerspec (millis duration)), if_neg hzero, fun time h => ?_⟩
    have hle := hkept.resolve_left hzero
    obtain rfl := Option.some.inj h
    omega

theorem arm_inv (h : Inv s) {o : O} {t : Timeout} {duration : Int} {fd : Nat}
    (ht : s.timeouts o = some t) (hfd : s.timerfds fd = none) (hkept : Kept duration)
    (hpending : ¬s.Pending t) (hrunning : ¬s.Running o) :
    Inv (s.arm o t duration fd).1 ∧ (s.arm o t duration fd).2 = .returned := by
  have hclosed : s.timers fd = none := by
    cases he : s.timers fd with
    | none => rfl
    | some e =>
      have hopen := h.opened fd e he
      rw [hfd] at hopen
      cases hopen
  obtain ⟨expiry, hsettime, hdue⟩ := settime_kept s.now hkept
  have hopen := open_inv h ht hfd hpending hrunning
  have hothers : ∀ fd' e, s.Waits fd' e → e.this ≠ o := fun fd' e =>
    h.not_owner ht hpending
  simp only [arm, hclosed, Option.isSome_none, Bool.false_eq_true, if_false, hsettime]
  refine ⟨?_, trivial⟩
  constructor
  · intro fd' e he
    have := hopen.opened fd' e
    grind [Function.update_apply]
  · intro o' t' fd' ht' hfd'
    have := h.held o' t' fd'
    grind [Function.update_apply]
  · intro o₁ o₂ t₁ t₂ fd' h₁ h₂ hfd₁ hfd₂
    have h₁' := h.held o₁ t₁ fd'
    have h₂' := h.held o₂ t₂ fd'
    have := h.unique o₁ o₂ t₁ t₂ fd'
    grind [Function.update_apply]
  · intro fd' e hwaits
    have := h.owned fd' e
    have := hothers fd' e
    grind [Function.update_apply, Waits, RunsFd]
  · intro fd' e hwaits
    by_cases heq : fd' = fd
    · subst heq
      obtain rfl : { this := o, arm := s.next } = e := by
        simpa using hwaits.1
      exact ⟨_, Function.update_self .., Bool.false_ne_true, Bool.false_ne_true, rfl,
        fun time htime => hdue time (by simpa using htime)⟩
    · have hold : s.Waits fd' e := by
        simpa [Waits, RunsFd, Function.update_of_ne heq] using hwaits
      obtain ⟨r, hr, hfired, hdisarmed, hholder, hdue⟩ := h.mayFire fd' e hold
      have hne : e.arm ≠ s.next := Nat.ne_of_lt (h.fresh fd' e hold.1)
      exact ⟨r, by simp [hne, hr], hfired, hdisarmed, hholder, by simpa [heq] using hdue⟩
  · intro fd₁ fd₂ e₁ e₂ h₁ h₂ heq
    have h₁' := h.fresh fd₁ e₁
    have h₂' := h.fresh fd₂ e₂
    have := h.distinct fd₁ fd₂ e₁ e₂
    grind [Function.update_apply]
  · intro fd' e he
    have := h.fresh fd' e
    grind [Function.update_apply]
  · intro fd' o' hrun
    have hne : o' ≠ o := by
      rintro rfl
      exact hrunning ⟨_, hrun, rfl⟩
    have := h.runs fd' o' hrun
    grind [Function.update_apply]

/-! ## Timer events -/

omit [DecidableEq O] in
theorem erased_inv (h : Inv s) {fd : Nat} (hrunning : s.running = none) :
    Inv { s with timers := Function.update s.timers fd none } := by
  constructor
  · grind [h.opened, Function.update_apply]
  · exact h.held
  · exact h.unique
  · intro fd' e hwaits
    have := h.owned fd' e
    grind [Function.update_apply, Waits, RunsFd]
  · intro fd' e hwaits
    have := h.mayFire fd' e
    grind [Function.update_apply, Waits, RunsFd]
  · grind [h.distinct, Function.update_apply]
  · intro fd' e he
    have := h.fresh fd' e
    grind [Function.update_apply]
  · intro fd' o hrun
    rw [hrunning] at hrun
    cases hrun

theorem handleTimer_inv (h : Inv s) {fd : Nat} {e : TimerEntry O} (he : s.timers fd = some e)
    (hrunning : s.running = none)
    (hexpired : e.active → ∃ expiry ∈ s.timerfds fd, ∃ time ∈ expiry, time ≤ s.now) :
    Inv (s.handleTimer fd e).1 ∧
      ((s.handleTimer fd e).2 = .returned ∨
        (s.handleTimer fd e).2 = .onTimeout e.arm ∧ s.MayFire e.arm) := by
  unfold handleTimer
  by_cases hactive : e.active
  · obtain ⟨expiry, hexpiry, time, htime, hle⟩ := hexpired hactive
    rw [Option.mem_def] at hexpiry htime
    subst htime
    have hwaits : s.Waits fd e := ⟨he, hactive, fun ⟨o, hrun⟩ => by simp [hrunning] at hrun⟩
    have howned := h.owned fd e hwaits
    obtain ⟨r, hr, hfired, hdisarmed, hholder, hdue⟩ := h.mayFire fd e hwaits
    simp only [hactive, if_true, hexpiry, Option.any_some, decide_eq_true hle, howned]
    refine ⟨?_, .inr ⟨trivial, r, hr, hfired, hdisarmed, Int.le_trans (hdue time hexpiry) hle⟩⟩
    constructor
    · intro fd' e' he'
      have := h.opened fd' e' he'
      grind [Function.update_apply]
    · intro o t fd' ht hfd'
      have := h.held o t fd'
      have := h.held e.this _ fd' howned
      grind [Function.update_apply]
    · intro o₁ o₂ t₁ t₂ fd' h₁ h₂ hfd₁ hfd₂
      have h₁' := h.unique o₁ e.this t₁ { armed := true, timerFd := some fd } fd'
      have h₂' := h.unique o₂ e.this t₂ { armed := true, timerFd := some fd } fd'
      have := h.unique o₁ o₂ t₁ t₂ fd'
      grind [Function.update_apply]
    · intro fd' e' hwaits'
      have hold : s.Waits fd' e' ∧ fd' ≠ fd := by
        grind [Waits, RunsFd]
      have howned' := h.owned fd' e' hold.1
      have hne : e'.this ≠ e.this := by
        intro heq
        rw [heq, howned] at howned'
        exact hold.2 (by simpa using howned'.symm)
      simpa [hne] using howned'
    · intro fd' e' hwaits'
      have hold : s.Waits fd' e' ∧ fd' ≠ fd := by
        grind [Waits, RunsFd]
      obtain ⟨r', hr', hfired', hdisarmed', hholder', hdue'⟩ := h.mayFire fd' e' hold.1
      have hne : e'.arm ≠ e.arm := fun heq => hold.2 (h.distinct fd' fd e' e hold.1.1 he heq)
      exact ⟨r', by simp [hne, hr'], hfired', hdisarmed', hholder', by simpa [hold.2] using hdue'⟩
    · exact h.distinct
    · exact h.fresh
    · intro fd' o hrun
      obtain ⟨rfl, rfl⟩ : fd = fd' ∧ e.this = o := by simpa using hrun
      exact ⟨by simp [he], { armed := false, timerFd := some fd }, by simp,
        fun fd' heq => (Option.some.inj heq).symm⟩
  · simp only [hactive, if_false, Bool.false_eq_true]
    exact ⟨erased_inv h hrunning, .inl trivial⟩

theorem finish_inv (h : Inv s) {fd : Nat} {o : O} (hrun : s.running = some (fd, o)) :
    Inv (s.finish fd o).1 ∧ (s.finish fd o).2 = .returned := by
  obtain ⟨hentry, t, ht, hsame⟩ := h.runs fd o hrun
  have hothers : ∀ fd' e, s.Waits fd' e → fd' ≠ fd ∧ e.this ≠ o := by
    intro fd' e hwaits
    have hne : fd' ≠ fd := by
      rintro rfl
      exact hwaits.2.2 ⟨o, hrun⟩
    refine ⟨hne, ?_⟩
    rintro rfl
    have howned := h.owned fd' e hwaits
    rw [ht] at howned
    obtain rfl := Option.some.inj howned
    exact hne (hsame fd' rfl)
  simp only [finish, ht]
  refine ⟨?_, trivial⟩
  constructor
  · intro fd' e he
    have := h.opened fd' e
    cases hfd : t.timerFd with
    | none => grind [Function.update_apply]
    | some open_fd =>
      have := hsame open_fd hfd
      grind [Function.update_apply]
  · intro o' t' fd' ht' hfd'
    have := h.held o' t' fd'
    have := h.unique o' o t' t fd'
    cases hfd : t.timerFd <;> grind [Function.update_apply]
  · intro o₁ o₂ t₁ t₂ fd' h₁ h₂ hfd₁ hfd₂
    have := h.unique o₁ o₂ t₁ t₂ fd'
    grind [Function.update_apply]
  · intro fd' e hwaits
    have := h.owned fd' e
    have := hothers fd' e
    grind [Function.update_apply, Waits, RunsFd]
  · intro fd' e hwaits
    have hold : s.Waits fd' e ∧ fd' ≠ fd := by
      grind [Function.update_apply, Waits, RunsFd]
    obtain ⟨r, hr, hfired, hdisarmed, hholder, hdue⟩ := h.mayFire fd' e hold.1
    refine ⟨r, hr, hfired, hdisarmed, hholder, ?_⟩
    cases hfd : t.timerFd with
    | none => exact hdue
    | some open_fd =>
      have hne : fd' ≠ open_fd := fun heq => hold.2 (heq.trans (hsame open_fd hfd))
      simpa [hne] using hdue
  · grind [h.distinct, Function.update_apply]
  · intro fd' e he
    have := h.fresh fd' e
    grind [Function.update_apply]
  · intro fd' o' hrun'
    cases hrun'

/-! ## Runs -/

theorem settled {event : Event O} (result : State O × Outcome) (hresult : s.result event = result)
    (hinv : Inv result.1) (hallowed : s.Allowed result.2) :
    Inv (s.step event) ∧ s.Behaves event := by
  subst hresult
  exact ⟨hinv, hallowed⟩

theorem arm_step (h : Inv s) {o : O} {duration : Int} {fd : Option Nat}
    (hmeets : s.Meets (.arm o duration fd)) :
    Inv (s.step (.arm o duration fd)) ∧ s.Behaves (.arm o duration fd) := by
  cases ht : s.timeouts o with
  | none => exact settled ((s, .returned)) (by simp [result, ht]) h trivial
  | some t =>
    obtain ⟨hfd, hkept, hpending, hrunning⟩ := hmeets t ht
    obtain ⟨fd, rfl⟩ := Option.isSome_iff_exists.1 hfd
    cases hopen : s.timerfds fd with
    | some expiry =>
      exact settled ((s, .returned)) (by simp [result, ht, hopen]) h trivial
    | none =>
      obtain ⟨hinv, hreturned⟩ := arm_inv h ht hopen hkept hpending hrunning
      exact settled (s.arm o t duration fd) (by simp [result, ht, hopen]) hinv
        (by rw [hreturned]; trivial)

theorem send_step (h : Inv s) (o : O) (fits : Bool) :
    Inv (s.step (.send o fits)) ∧ s.Behaves (.send o fits) := by
  cases ht : s.timeouts o with
  | none => exact settled ((s, .returned)) (by simp [result, ht]) h trivial
  | some t =>
    cases fits with
    | false => exact settled ((s, .rejected)) (by simp [result, ht]) h trivial
    | true =>
      have hdisarm := disarm_inv h ht
      have houtcome := disarm_outcome (s := s) o t
      rcases hresult : s.disarm o t with ⟨s', outcome⟩
      rw [hresult] at hdisarm houtcome
      rcases houtcome with rfl | rfl
      · exact settled ((s', .returned)) (by simp [result, ht, hresult]) hdisarm trivial
      · exact settled ((s', .rejected)) (by simp [result, ht, hresult]) hdisarm trivial

theorem destroy_step (h : Inv s) {o : O} (hmeets : s.Meets (.destroy o)) :
    Inv (s.step (.destroy o)) ∧ s.Behaves (.destroy o) := by
  cases ht : s.timeouts o with
  | none => exact settled ((s, .returned)) (by simp [result, ht]) h trivial
  | some t =>
    obtain ⟨hdisarmable, hrunning⟩ := hmeets t ht
    have hreturned := disarm_returns (o := o) hdisarmable
    have hgone := erase_inv (disarm_inv h ht) ((congrFun (disarm_timeouts o t) o).trans ht)
      (disarm_not_pending hdisarmable) (by rwa [Running, disarm_running])
    rcases hresult : s.disarm o t with ⟨s', outcome⟩
    rw [hresult] at hreturned hgone
    obtain rfl : outcome = .returned := hreturned
    exact settled
      ({ s' with timeouts := Function.update s'.timeouts o none }, .returned)
      (by simp [result, ht, hresult]) hgone trivial

theorem ready_step (h : Inv s) {fd : Nat} (hmeets : s.Meets (.ready fd)) :
    Inv (s.step (.ready fd)) ∧ s.Behaves (.ready fd) := by
  cases hrunning : s.running with
  | some p => exact settled ((s, .returned)) (by simp [result, hrunning]) h trivial
  | none =>
    cases he : s.timers fd with
    | none => exact settled ((s, .returned)) (by simp [result, hrunning, he]) h trivial
    | some e =>
      obtain ⟨hinv, houtcome⟩ := handleTimer_inv h he hrunning (hmeets e he)
      refine settled (s.handleTimer fd e) (by simp [result, hrunning, he]) hinv ?_
      obtain hreturned | ⟨hfires, hmay⟩ := houtcome
      · rw [hreturned]
        trivial
      · rw [hfires]
        exact hmay

theorem step_inv (h : Inv s) (event : Event O) (hmeets : s.Meets event) :
    Inv (s.step event) ∧ s.Behaves event := by
  cases event with
  | construct o =>
    cases ho : s.timeouts o with
    | none => exact settled (_, .returned) (by simp [result, ho]) (construct_inv h ho) trivial
    | some t => exact settled (s, .returned) (by simp [result, ho]) h trivial
  | arm o duration fd => exact arm_step h hmeets
  | move other this =>
    cases ht : s.timeouts other with
    | none => exact settled ((s, .returned)) (by simp [result, ht]) h trivial
    | some t =>
      exact settled ((s.move other this t, .returned)) (by simp [result, ht])
        (move_inv h ht hmeets) trivial
  | disarm o =>
    cases ht : s.timeouts o with
    | none => exact settled ((s, .returned)) (by simp [result, ht]) h trivial
    | some t =>
      refine settled (s.disarm o t) (by simp [result, ht]) (disarm_inv h ht) ?_
      rw [disarm_returns (hmeets t ht)]
      trivial
  | send o fits => exact send_step h o fits
  | destroy o => exact destroy_step h hmeets
  | ready fd => exact ready_step h hmeets
  | finish =>
    cases hrunning : s.running with
    | none => exact settled ((s, .returned)) (by simp [result, hrunning]) h trivial
    | some p =>
      obtain ⟨hinv, hreturned⟩ := finish_inv h hrunning
      refine settled (s.finish p.1 p.2) (by simp [result, hrunning]) hinv ?_
      rw [hreturned]
      trivial
  | elapse time =>
    exact ⟨⟨h.opened, h.held, h.unique, h.owned, h.mayFire, h.distinct, h.fresh, h.runs⟩, trivial⟩

/-- **The timeout keeps its contract** in every run whose operations meet the condition. -/
theorem timeouts_behave (events : List (Event O))
    (h : Machine.Always step Meets start events) : Machine.Always step Behaves start events :=
  have hstep : ∀ (s : State O) (event : Event O), Inv s → s.Meets event →
      s.Behaves event ∧ Inv (s.step event) := fun _ event hinv hmeets =>
    (step_inv hinv event hmeets).symm
  Machine.Always.imp hstep events start start_inv h

/-- A response times out, and the next one is sent in time. -/
theorem timeouts_behave_both : Machine.Always (step (O := Nat)) Behaves start
    [.construct 0, .arm 0 500000000 (some 5), .elapse 500000000, .ready 5, .finish, .destroy 0,
      .construct 1, .arm 1 2000000000 (some 5), .send 1 true, .destroy 1, .elapse 2000000000,
      .ready 5] :=
  timeouts_behave _ (by decide)

/-- A `ResponseWriter` with an armed timeout is moved, and the source is destroyed. -/
theorem moved_terminates : ¬Machine.Always (step (O := Nat)) Behaves start
    [.construct 0, .arm 0 500000000 (some 5), .move 0 1, .destroy 0] := by
  rintro ⟨-, -, -, hdestroy, -⟩
  exact hdestroy

end Pistache.Http.ResponseTimeout.State
