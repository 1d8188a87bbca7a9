import Pistache.Experimental.Threads
import Pistache.Experimental.Timers

/-!
# Timeouts

Where no request ends while the batch still holds the event of its timer, a timer event that is
handled is that of the request of its connection.

* `State.Timed` — timers belong to the requests they are armed for, and the events of a batch to
  timers that have expired.
* `timed_step` — a step keeps it.
* `timeouts_sound` — a promise is rejected with a timeout only behind the timeout of its request.
-/

set_option autoImplicit false

namespace Pistache.Experimental

variable {T : Type} [DecidableEq T]

/-- The timer expires when a timeout that was armed for the request has passed. -/
def State.Expires (s : State T) (r : Request) (time : Nat) : Prop :=
  ∃ t₀ timeout, (t₀, timeout) ∈ s.armed r.id ∧ 0 < timeout ∧
    time = t₀ + nanoseconds timeout.toNat

/-- Timers belong to requests, and the events of a batch to timers that have expired. -/
structure State.Timed (s : State T) : Prop where
  used : ∀ c k time, ((s.conn c).timers k).expiry = some time → ((s.conn c).timers k).used
  frame : ∀ t c r k time, .setEntry c r (some k) ∈ s.stack t →
    ((s.conn c).timers k).expiry = some time → s.Expires r time
  entry : ∀ c e k time, (s.conn c).requestEntry = some e → e.timer = some k →
    ((s.conn c).timers k).expiry = some time → s.Expires e.request time
  hand : ∀ c k time, ((s.conn c).timers k).expiry = some time →
    (∃ t r, .setEntry c r (some k) ∈ s.stack t) ∨
      ∃ e, (s.conn c).requestEntry = some e ∧ e.timer = some k
  stale : ∀ c e, (s.conn c).requestEntry = some e → s.outcomes e.request.id ≠ [] → s.Quiet c
  reset : ∀ t c, .rejected c ∈ s.stack t ∨ .resolved c ∈ s.stack t → ∀ e k,
    (s.conn c).requestEntry = some e → e.timer = some k → ((s.conn c).timers k).expiry = none
  batch : ∀ t events c k, .onReady events ∈ s.stack t → .timer c k ∈ events →
    ∃ time, ((s.conn c).timers k).expiry = some time ∧ time ≤ s.now
  timing : ∀ t c fs, s.stack t = .handleTimeout c :: fs → ∃ k fs', fs = .eraseTimeout c k :: fs' ∧
    ∃ time, ((s.conn c).timers k).expiry = some time ∧ time ≤ s.now
  alone : ∀ t c, .handleTimeout c ∉ (s.stack t).tail
  timedOut : ∀ id time, .timedOut time ∈ s.outcomes id → ∃ t₀ timeout,
    (t₀, timeout) ∈ s.armed id ∧ 0 < timeout ∧ t₀ + nanoseconds timeout.toNat ≤ time

/-! ## Steps -/

section

variable {cfg : Config T} {s s' : State T} {t : T} {fs : List Frame} {input : Input} {f : Frame}

/-- Where a request is yet to be performed, no other one is pending. -/
theorem State.Timed.vacant [Fintype T] (h : s.Timed) (husers : ∀ c, s.users c ≤ s.mark c)
    (hstack : s.stack t = f :: fs) {c : ConnId} (hf : f.prepares c) :
    (s.conn c).requestEntry = none := by
  cases he : (s.conn c).requestEntry with
  | none => rfl
  | some e =>
    by_cases hpending : s.outcomes e.request.id = []
    · obtain ⟨-, -, hparked, -⟩ := users_top (husers c) hstack (prepares_uses hf).ge
      simp [State.parked, he, unsettled, hpending] at hparked
    · have hnone := (h.stale c e he hpending).frames t f (hstack ▸ List.mem_cons_self)
      rw [hf] at hnone
      cases hnone

theorem State.Expires.move (hm : Move cfg s t fs input f s') {r : Request} {time : Nat}
    (h : s.Expires r time) : s'.Expires r time := by
  obtain ⟨t₀, timeout, hmem, hrest⟩ := h
  exact ⟨t₀, timeout, move_armed hm hmem, hrest⟩

theorem timed_used (hm : Move cfg s t fs input f s') (h : s.Timed) (c : ConnId) (k time : Nat)
    (hexpiry : ((s'.conn c).timers k).expiry = some time) : ((s'.conn c).timers k).used := by
  cases move_timer hm c k with
  | kept hsame hused => exact hused ▸ h.used c k time (hsame ▸ hexpiry)
  | arms r _ _ _ _ _ hused => exact hused
  | releases e _ _ _ hnone =>
    rw [hnone] at hexpiry
    cases hexpiry

omit [DecidableEq T] in
/-- What is armed is armed for all of the timeout. -/
theorem armMs_exact {c : ConnId} {r : Request} (htimeout : 0 < r.timeout)
    (h : (Frame.performImpl c r).timely s input fs) : armMs r.timeout = r.timeout.toNat := by
  simp only [Frame.timely, Bool.or_eq_true, decide_eq_true_eq] at h
  omega

theorem timed_frame [Fintype T] (hm : Move cfg s t fs input f s') (hstack : s.stack t = f :: fs)
    (h : s.Timed) (husers : ∀ c, s.users c ≤ s.mark c) (htimely : f.timely s input fs) (u : T)
    (c : ConnId) (r : Request) (k time : Nat) (hg : .setEntry c r (some k) ∈ s'.stack u)
    (hexpiry : ((s'.conn c).timers k).expiry = some time) : s'.Expires r time := by
  rcases move_setEntry hm hstack hg with hold | ⟨rfl, htimeout, harm, hmem⟩
  · cases move_timer hm c k with
    | kept hsame => exact (h.frame u c r k time hold (hsame ▸ hexpiry)).move hm
    | arms r' htop =>
      -- the connection is with one request
      subst htop
      obtain ⟨hbelow, hothers, -, -⟩ := users_top (husers c) hstack (by simp [Frame.uses])
      exfalso
      by_cases hu : u = t
      · subst hu
        rw [hstack] at hold
        rcases List.mem_cons.mp hold with heq | hold
        · cases heq
        · simpa [Frame.uses] using hbelow _ hold
      · simpa [Frame.uses] using hothers u hu _ hold
    | releases e _ _ _ hnone =>
      rw [hnone] at hexpiry
      cases hexpiry
  · rw [harm] at hexpiry
    refine ⟨s.now, r.timeout, hmem, htimeout, ?_⟩
    rw [← armMs_exact htimeout htimely]
    exact (Option.some.inj hexpiry).symm

theorem timed_entry [Fintype T] (hm : Move cfg s t fs input f s') (hstack : s.stack t = f :: fs)
    (h : s.Timed) (husers : ∀ c, s.users c ≤ s.mark c) (c : ConnId) (e : RequestEntry)
    (k time : Nat) (he : (s'.conn c).requestEntry = some e) (htimer : e.timer = some k)
    (hexpiry : ((s'.conn c).timers k).expiry = some time) : s'.Expires e.request time := by
  cases move_timer hm c k with
  | kept hsame =>
    rcases move_entry hm he with hold | rfl
    · exact (h.entry c e k time hold htimer (hsame ▸ hexpiry)).move hm
    · exact (h.frame t c e.request k time (by rw [hstack, htimer]; exact List.mem_cons_self)
        (hsame ▸ hexpiry)).move hm
  | arms r htop =>
    subst htop
    rcases move_entry hm he with hold | heq
    · rw [h.vacant husers hstack (by simp [Frame.prepares])] at hold
      cases hold
    · cases heq
  | releases e' _ _ _ hnone =>
    rw [hnone] at hexpiry
    cases hexpiry

theorem timed_hand [Fintype T] (hm : Move cfg s t fs input f s') (hstack : s.stack t = f :: fs)
    (h : s.Timed) (husers : ∀ c, s.users c ≤ s.mark c) (hleaves : ∀ g ∈ fs, g.request = none)
    (c : ConnId) (k time : Nat) (hexpiry : ((s'.conn c).timers k).expiry = some time) :
    (∃ t r, .setEntry c r (some k) ∈ s'.stack t) ∨
      ∃ e, (s'.conn c).requestEntry = some e ∧ e.timer = some k := by
  cases move_timer hm c k with
  | kept hsame =>
    rcases h.hand c k time (hsame ▸ hexpiry) with ⟨u, r, hg⟩ | ⟨e, he, htimer⟩
    · rcases move_setEntry_gone hm hstack hleaves hg with hkept | ⟨-, hentry⟩
      · exact .inl ⟨u, r, hkept⟩
      · exact .inr ⟨_, hentry, rfl⟩
    · rcases move_entry_gone hm he with hkept | rfl | rfl | ⟨r, timer, rfl, -⟩
      · exact .inr ⟨e, hkept, htimer⟩
      · have hnone := h.reset t c (.inl (hstack ▸ List.mem_cons_self)) e k he htimer
        rw [hsame, hnone] at hexpiry
        cases hexpiry
      · have hnone := h.reset t c (.inr (hstack ▸ List.mem_cons_self)) e k he htimer
        rw [hsame, hnone] at hexpiry
        cases hexpiry
      · rw [h.vacant husers hstack (by simp [Frame.prepares])] at he
        cases he
  | arms r _ _ _ hstack' => exact .inl ⟨t, r, hstack' ▸ List.mem_cons_self⟩
  | releases e _ _ _ hnone =>
    rw [hnone] at hexpiry
    cases hexpiry

theorem timed_reset [Fintype T] (hm : Move cfg s t fs input f s') (hstack : s.stack t = f :: fs)
    (h : s.Timed) (husers : ∀ c, s.users c ≤ s.mark c) (u : T) (c : ConnId)
    (hg : .rejected c ∈ s'.stack u ∨ .resolved c ∈ s'.stack u) (e : RequestEntry) (k : Nat)
    (he : (s'.conn c).requestEntry = some e) (htimer : e.timer = some k) :
    ((s'.conn c).timers k).expiry = none := by
  rcases move_resets hm hstack hg with hold | ⟨e', he', hnone⟩
  · -- while the frame is there, the connection is with no other request
    have halone : f.uses c = 1 → f = .rejected c ∨ f = .resolved c := by
      intro huses
      obtain ⟨hbelow, hothers, -, -⟩ := users_top (husers c) hstack huses.ge
      by_cases hu : u = t
      · subst hu
        rw [hstack] at hold
        grind -ring -linarith [Frame.uses]
      · grind -ring -linarith [Frame.uses]
    have hsame : (s.conn c).requestEntry = some e := by
      rcases move_entry hm he with hsame | rfl
      · exact hsame
      · rcases halone (by simp [Frame.uses]) with heq | heq <;> cases heq
    have hnone := h.reset u c hold e k hsame htimer
    cases move_timer hm c k with
    | kept hkept => exact hkept.trans hnone
    | arms r htop =>
      subst htop
      rcases halone (by simp [Frame.uses]) with heq | heq <;> cases heq
    | releases _ _ _ _ hreleased => exact hreleased
  · rw [he] at he'
    cases he'
    exact hnone k htimer

/-- The timers of the batches and of the timeouts under way stay armed. -/
theorem timed_expiry (hm : Move cfg s t fs input f s') (hstack : s.stack t = f :: fs)
    (howned : s.Owned) (h : s.Timed) {u : T} {c : ConnId} {k time : Nat} {g : Frame}
    (hg : g ∈ s.stack u) (hc : c ∈ g.here) (hends : u = t → f.ends input c → ∀ e,
      (s.conn c).requestEntry = some e → e.timer = some k → False)
    (hexpiry : ((s.conn c).timers k).expiry = some time) :
    ((s'.conn c).timers k).expiry = some time := by
  cases move_timer hm c k with
  | kept hsame => rw [hsame, hexpiry]
  | arms r _ _ hunused =>
    rw [h.used c k time hexpiry] at hunused
    cases hunused
  | releases e htop he htimer =>
    have hhere : c ∈ f.here := by
      cases f <;> simp [Frame.ends] at htop <;> simp [Frame.here, htop]
    have hown := howned.frame t f c (hstack ▸ List.mem_cons_self) hhere
    have hu := Option.some.inj ((howned.frame u g c hg hc).symm.trans hown)
    exact (hends hu htop e he htimer).elim

theorem timed_batch (hm : Move cfg s t fs input f s') (hstack : s.stack t = f :: fs)
    (howned : s.Owned) (h : s.Timed) (htimely : f.timely s input fs) (u : T) (events : List Ready)
    (c : ConnId) (k : Nat) (hg : .onReady events ∈ s'.stack u) (hmem : .timer c k ∈ events) :
    ∃ time, ((s'.conn c).timers k).expiry = some time ∧ time ≤ s'.now := by
  obtain ⟨events', hg', hmem'⟩ :
      ∃ events', .onReady events' ∈ s.stack u ∧ .timer c k ∈ events' := by
    rcases move_onReady hm hstack hg with hold | ⟨rfl, e, rfl⟩
    · exact ⟨events, hold, hmem⟩
    · exact ⟨_, hstack ▸ List.mem_cons_self, List.mem_cons_of_mem _ hmem⟩
  obtain ⟨time, hexpiry, htime⟩ := h.batch u events' c k hg' hmem'
  refine ⟨time, timed_expiry hm hstack howned h hg' (List.mem_filterMap.mpr ⟨_, hmem', rfl⟩)
    (fun hu hends e he htimer => ?_) hexpiry, by rwa [move_now hm]⟩
  subst hu
  have hbelow : .onReady events' ∈ fs := by
    rw [hstack] at hg'
    rcases List.mem_cons.mp hg' with rfl | hg'
    · cases hends
    · exact hg'
  have hovertakes := overtakes_of_mem he htimer hbelow hmem'
  cases f <;> simp [Frame.ends] at hends <;> simp_all [Frame.timely]

theorem timed_timing (hm : Move cfg s t fs input f s') (hstack : s.stack t = f :: fs)
    (howned : s.Owned) (h : s.Timed) (u : T) (c : ConnId) (gs : List Frame)
    (hg : s'.stack u = .handleTimeout c :: gs) : ∃ k gs', gs = .eraseTimeout c k :: gs' ∧
      ∃ time, ((s'.conn c).timers k).expiry = some time ∧ time ≤ s'.now := by
  rw [move_now hm]
  by_cases hu : u = t
  · subst hu
    have halone : ∀ c, .handleTimeout c ∉ fs := fun c => by simpa [hstack] using h.alone u c
    rcases move_handleTimeout hm hstack halone (c := c) (by rw [hg]; exact List.mem_cons_self)
      with ⟨rfl, hsame, hconn⟩ | ⟨k, events, rfl, hconn, hstack'⟩
    · rw [hconn]
      exact h.timing u c gs (hsame.symm.trans hg)
    · rw [hconn]
      obtain ⟨time, hexpiry, htime⟩ :=
        h.batch u _ c k (hstack ▸ List.mem_cons_self) List.mem_cons_self
      rw [hstack'] at hg
      cases hg
      exact ⟨k, _, rfl, time, hexpiry, htime⟩
  · rw [hm.stack, Function.update_of_ne hu] at hg
    obtain ⟨k, gs', rfl, time, hexpiry, htime⟩ := h.timing u c gs hg
    refine ⟨k, gs', rfl, time, ?_, htime⟩
    exact timed_expiry hm hstack howned h (g := .handleTimeout c)
      (hg ▸ List.mem_cons_self) List.mem_cons_self (fun heq => absurd heq hu) hexpiry

/-- A timeout that is handled is that of the request of the connection. -/
theorem State.Timed.due [Fintype T] (h : s.Timed) (husers : ∀ c, s.users c ≤ s.mark c)
    (hleaves : s.Leaves) {c : ConnId} {e : RequestEntry}
    (hstack : s.stack t = .handleTimeout c :: fs) (he : (s.conn c).requestEntry = some e) :
    ∃ k gs time, fs = .eraseTimeout c k :: gs ∧ e.timer = some k ∧
      ((s.conn c).timers k).expiry = some time ∧ time ≤ s.now := by
  obtain ⟨k, gs, rfl, time, hexpiry, htime⟩ := h.timing t c fs hstack
  refine ⟨k, gs, time, rfl, ?_, hexpiry, htime⟩
  rcases h.hand c k time hexpiry with ⟨u, r, hg⟩ | ⟨e', he', htimer⟩
  · -- a timer that is yet to be put into the entry finds none there
    exfalso
    cases hu : s.stack u with
    | nil =>
      rw [hu] at hg
      cases hg
    | cons g gs' =>
      rw [hu] at hg
      rcases List.mem_cons.mp hg with rfl | hg
      · rw [h.vacant husers hu (by simp [Frame.prepares])] at he
        cases he
      · have hnone := hleaves u _ (by rwa [hu])
        cases hnone
  · rw [he] at he'
    cases he'
    exact htimer

theorem timed_timedOut [Fintype T] (hm : Move cfg s t fs input f s') (hstack : s.stack t = f :: fs)
    (h : s.Timed) (husers : ∀ c, s.users c ≤ s.mark c) (hleaves : s.Leaves) (id time : Nat)
    (hmem : .timedOut time ∈ s'.outcomes id) : ∃ t₀ timeout, (t₀, timeout) ∈ s'.armed id ∧
      0 < timeout ∧ t₀ + nanoseconds timeout.toNat ≤ time := by
  rcases move_timedOut hm hmem with hold | ⟨c, e, rfl, he, rfl, rfl⟩
  · obtain ⟨t₀, timeout, harmed, hrest⟩ := h.timedOut id time hold
    exact ⟨t₀, timeout, move_armed hm harmed, hrest⟩
  · obtain ⟨k, gs, time, -, htimer, hexpiry, htime⟩ := h.due husers hleaves hstack he
    obtain ⟨t₀, timeout, harmed, hpos, rfl⟩ := h.entry c e k time he htimer hexpiry
    exact ⟨t₀, timeout, move_armed hm harmed, hpos, htime⟩

end

/-! ## Runs -/

/-- A thread with nothing under way takes up frames that have no connection. -/
theorem State.Timed.begun {s s' : State T} {t : T} {gs : List Frame} (h : s.Timed)
    (hb : Begins s s' t gs) (hgs : ∀ g ∈ gs, (∀ c, g.uses c = 0) ∧ ∀ c, g ≠ .handleTimeout c)
    (hbatch : ∀ events c k, .onReady events ∈ gs → .timer c k ∈ events →
      ∃ time, ((s.conn c).timers k).expiry = some time ∧ time ≤ s.now) : s'.Timed := by
  have htimers := fun c => congrArg Connection.timers (hb.conn c)
  have hentry := fun c => congrArg Connection.requestEntry (hb.conn c)
  have hold : ∀ {u : T} {g : Frame} {c : ConnId}, 1 ≤ g.uses c → g ∈ s'.stack u →
      g ∈ s.stack u := by
    intro u g c huses hg
    rcases hb.old hg with hg | hg
    · exact hg
    · rw [(hgs g hg).1 c] at huses
      cases huses
  have hexpires : ∀ {r : Request} {time : Nat}, s.Expires r time → s'.Expires r time := by
    rintro r time ⟨t₀, timeout, hmem, hrest⟩
    exact ⟨t₀, timeout, hb.armed ▸ hmem, hrest⟩
  refine ⟨?_, ?_, ?_, ?_, ?_, ?_, ?_, ?_, ?_, ?_⟩
  · intro c k time hexpiry
    rw [htimers] at hexpiry ⊢
    exact h.used c k time hexpiry
  · intro u c r k time hg hexpiry
    rw [htimers] at hexpiry
    exact hexpires (h.frame u c r k time (hold (c := c) (by simp [Frame.uses]) hg) hexpiry)
  · intro c e k time he htimer hexpiry
    rw [htimers] at hexpiry
    rw [hentry] at he
    exact hexpires (h.entry c e k time he htimer hexpiry)
  · intro c k time hexpiry
    rw [htimers] at hexpiry
    rw [hentry]
    rcases h.hand c k time hexpiry with ⟨u, r, hg⟩ | hentry
    · exact .inl ⟨u, r, hb.kept hg⟩
    · exact .inr hentry
  · exact State.Stale.begun h.stale hb fun g hg => (hgs g hg).1
  · intro u c hg e k he htimer
    rw [hentry] at he
    rw [htimers]
    refine h.reset u c (hg.imp ?_ ?_) e k he htimer
    · exact fun hg => hold (c := c) (by simp [Frame.uses]) hg
    · exact fun hg => hold (c := c) (by simp [Frame.uses]) hg
  · intro u events c k hg hmem
    rw [htimers, hb.now]
    rcases hb.old hg with hg | hg
    · exact h.batch u events c k hg hmem
    · exact hbatch events c k hg hmem
  · intro u c fs hg
    have hmem : .handleTimeout c ∈ s'.stack u := hg ▸ List.mem_cons_self
    rw [htimers, hb.now]
    by_cases hu : u = t
    · subst hu
      rw [hb.stack, Function.update_self] at hmem
      exact absurd rfl ((hgs _ hmem).2 c)
    · rw [hb.stack, Function.update_of_ne hu] at hg
      exact h.timing u c fs hg
  · intro u c hg
    by_cases hu : u = t
    · subst hu
      rw [hb.stack, Function.update_self] at hg
      exact absurd rfl ((hgs (.handleTimeout c) (List.mem_of_mem_tail hg)).2 c)
    · rw [hb.stack, Function.update_of_ne hu] at hg
      exact h.alone u c hg
  · rw [hb.outcomes, hb.armed]
    exact h.timedOut

theorem timed_step [Fintype T] {cfg : Config T} {s s' : State T} {event : Event T}
    (howned : s.Owned) (husers : ∀ c, s.users c ≤ s.mark c) (hleaves : s.Leaves) (h : s.Timed)
    (htimely : timely s event) (hs : Happens cfg s event s') : s'.Timed := by
  cases hs with
  | nothing => exact h
  | tick =>
    refine ⟨h.used, h.frame, h.entry, h.hand, fun c e he hsettled => ?_, h.reset,
      fun u events c k hg hmem => ?_, fun u c fs hg => ?_, h.alone, h.timedOut⟩
    · obtain ⟨hused, hqueue, hframes⟩ := h.stale c e he hsettled
      exact ⟨hused, hqueue, hframes⟩
    · obtain ⟨time, hexpiry, htime⟩ := h.batch u events c k hg hmem
      exact ⟨time, hexpiry, Nat.le_add_right_of_le htime⟩
    · obtain ⟨k, gs, hfs, time, hexpiry, htime⟩ := h.timing u c fs hg
      exact ⟨k, gs, hfs, time, hexpiry, Nat.le_add_right_of_le htime⟩
  | @frame t input f fs _ hstack hm =>
    have hframe : f.timely s input fs := by simpa [timely, hstack] using htimely
    have hbelow : ∀ g ∈ fs, g.request = none := fun g hg => hleaves t g (by rwa [hstack])
    have halone : ∀ u c, .handleTimeout c ∉ (s'.stack u).tail := by
      intro u c
      by_cases hu : u = t
      · subst hu
        exact move_alone hm hstack (fun c => by simpa [hstack] using h.alone u c) c
      · rw [hm.stack, Function.update_of_ne hu]
        exact h.alone u c
    exact ⟨timed_used hm h, timed_frame hm hstack h husers hframe, timed_entry hm hstack h husers,
      timed_hand hm hstack h husers hbelow, move_stale hm hstack h.stale husers,
      timed_reset hm hstack h husers, timed_batch hm hstack howned h hframe,
      timed_timing hm hstack howned h, halone, timed_timedOut hm hstack h husers hleaves⟩
  | poll hstack hworker hfree hnodup hpolled =>
    refine h.begun (.poll hstack) ?_ ?_
    · intro g hg
      rw [List.mem_singleton.mp hg]
      exact ⟨fun c => rfl, nofun⟩
    · intro events' c k hg hmem
      cases List.mem_singleton.mp hg
      obtain ⟨-, -, time, hexpiry, htime⟩ := hpolled _ hmem
      exact ⟨time, hexpiry, htime⟩
  | call hstack =>
    refine h.begun (.call hstack) ?_ ?_
    · intro g hg
      simp only [List.mem_cons, List.not_mem_nil, or_false] at hg
      rcases hg with rfl | rfl <;> exact ⟨fun c => rfl, nofun⟩
    · intro events' c k hg
      simp at hg

/-- A promise is rejected with a timeout only behind the timeout of its request, and a timeout that
is handled is that of a timer that is armed, and of the request of its connection. -/
structure State.TimeoutsSound (s : State T) : Prop where
  elapsed : ∀ id time, .timedOut time ∈ s.outcomes id → ∃ t₀ timeout,
    (t₀, timeout) ∈ s.armed id ∧ 0 < timeout ∧ t₀ + nanoseconds timeout.toNat ≤ time
  armed : ∀ t c fs, s.stack t = .handleTimeout c :: fs → ∃ k fs', fs = .eraseTimeout c k :: fs' ∧
    ((s.conn c).timers k).expiry ≠ none ∧
    ∀ e, (s.conn c).requestEntry = some e → e.timer = some k

/-- **Timeouts**, in every run in which timers are armed for all of the timeout and no request
ends while the batch still holds the event of its timer. -/
theorem timeouts_sound [Fintype T] (cfg : Config T) (events : List (Event T))
    (h : Machine.Always (next cfg) (fun s event => timely s event) start events) :
    (run cfg start events).TimeoutsSound := by
  obtain ⟨-, husers, hleaves, htimed⟩ : (run cfg start events).Owned ∧
      (∀ c, (run cfg start events).users c ≤ (run cfg start events).mark c) ∧
      (run cfg start events).Leaves ∧ (run cfg start events).Timed := by
    refine always_inv (P := fun s event => timely s event) (I := fun s => s.Owned ∧
      (∀ c, s.users c ≤ s.mark c) ∧ s.Leaves ∧ s.Timed) ⟨?_, ?_, ?_, ?_⟩
      (fun s event s' ⟨howned, husers, hleaves, htimed⟩ htimely hs =>
        ⟨owned_step howned hs, fun c => users_step husers hs c, leaves_step hleaves hs,
          timed_step howned husers hleaves htimed htimely hs⟩) h
    · exact ⟨by simp [start], by simp [start], by simp [start], by simp [start]⟩
    · intro c
      simp [State.users, State.parked, State.mark, start, unsettled, Stacks.total_empty]
    · simp [State.Leaves, start]
    · constructor <;> simp [start]
  refine ⟨htimed.timedOut, fun t c fs hstack => ?_⟩
  obtain ⟨k, gs, rfl, time, hexpiry, -⟩ := htimed.timing t c fs hstack
  refine ⟨k, gs, rfl, by simp [hexpiry], fun e he => ?_⟩
  obtain ⟨k', gs', -, heq, htimer, -⟩ := htimed.due husers hleaves hstack he
  cases heq
  exact htimer

/-- The first request times out. -/
def timingOut (timeout : Int) (wait : Nat) : List (Event Bool) :=
  connecting (lit "h") timeout ++ performing ++ [worker .go, .tick wait,
    worker (.poll [.timer first 0]), worker .go, worker .go]

theorem timeouts_sound_hundred : ∃ t₀ timeout,
    (t₀, timeout) ∈ (run small start (timingOut 100 100000000)).armed 0 ∧ 0 < timeout ∧
      t₀ + nanoseconds timeout.toNat ≤ 100000000 :=
  (timeouts_sound small (timingOut 100 100000000) (by decide)).elapsed 0 100000000
    (by decide)

/-- A batch has the response to the first request and the event of its timer; a second request is
performed behind the response, and its timer is the same. -/
def lateEvent : List (Event Bool) :=
  connecting (lit "h") 100 ++ performing ++ [worker .go] ++ queueing (lit "h") 100 ++
    [.tick 100000000, worker (.poll [.socket first .readable, .timer first 0]), worker .go,
      worker (.recv .bytes), worker (.recv .EAGAIN), worker (.parse .Done), worker .return_,
      worker .go, worker .go, worker (.order [lit "h"]), worker .go, worker .go, worker .go,
      worker .go, worker .go, worker .go, worker (.send (.bytes 5)), worker .go, worker .go,
      worker .go, worker .go, worker .go, worker .go, worker .go]

set_option maxRecDepth 8000 in
/-- A timeout of 1500 ms is over after a second, and the timer of a request that has its response
times out the next one at once. -/
theorem timeouts_early : ¬(run small start (timingOut 1500 1000000000)).TimeoutsSound ∧
    ¬(run small start lateEvent).TimeoutsSound := by
  constructor
  · intro h
    obtain ⟨t₀, timeout, hmem, -, htime⟩ := h.elapsed 0 1000000000 (by decide)
    have harmed : (run small start (timingOut 1500 1000000000)).armed 0 = [(0, 1500)] := by
      decide
    rw [harmed] at hmem
    cases List.mem_singleton.mp hmem
    exact absurd htime (by decide)
  · intro h
    obtain ⟨t₀, timeout, hmem, -, htime⟩ := h.elapsed 1 100000000 (by decide)
    have harmed : (run small start lateEvent).armed 1 = [(100000000, 100)] := by decide
    rw [harmed] at hmem
    cases List.mem_singleton.mp hmem
    exact absurd htime (by decide)

end Pistache.Experimental
