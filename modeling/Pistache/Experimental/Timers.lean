import Pistache.Experimental.Places

/-!
# Timers

A timer is armed for a request in `performImpl`, and released where the request ends; its event may
stand in a batch that is being handled.  `armMs` drops what is over whole seconds from one second
on.

* `timely` — a step arms a timer for all of the timeout, and ends no request of which the batch
  still holds the event of the timer.
* `move_timer` — what a step does to a timer.
* `move_setEntry`, `move_resets`, `move_onReady`, `move_handleTimeout` — where the frames that have
  to do with timers come from.
-/

set_option autoImplicit false

namespace Pistache.Experimental

variable {T : Type} [DecidableEq T]

/-! ## Timers -/

/-- The batch being handled still holds the event of the timer of the connection's request. -/
def State.overtakes (s : State T) (c : ConnId) (fs : List Frame) : Bool :=
  match (s.conn c).requestEntry with
  | some ⟨_, some k⟩ =>
    fs.any fun
      | .onReady events => events.contains (.timer c k)
      | _ => false
  | _ => false

/-- The timer is armed for all of the timeout, and a request does not end while the batch still
holds the event of its timer. -/
def Frame.timely (s : State T) (input : Input) (fs : List Frame) : Frame → Bool
  | .performImpl _ r => r.timeout ≤ 0 || armMs r.timeout = r.timeout
  | .handleError c _ | .handleTimeout c => !s.overtakes c fs
  | .handleResponsePacket c => input ≠ .parse .Done || !s.overtakes c fs
  | _ => true

def timely (s : State T) : Event T → Bool
  | .tick _ => true
  | .thread t input =>
    match s.stack t with
    | [] => true
    | f :: fs => f.timely s input fs

/-- The step of the frame ends the request of the connection. -/
def Frame.ends (input : Input) (c : ConnId) : Frame → Prop
  | .handleError c' _ | .handleTimeout c' => c' = c
  | .handleResponsePacket c' => c' = c ∧ input = .parse .Done
  | _ => False

omit [DecidableEq T] in
theorem pickTimer_unused {conn : Connection T} {k : Nat} (h : conn.pickTimer = some k) :
    (conn.timers k).used = false := by
  have := List.find?_some h
  simpa using this

omit [DecidableEq T] in
theorem pickTimer_lt {conn : Connection T} {k : Nat} (h : conn.pickTimer = some k) :
    k < timerPoolSize :=
  List.mem_range.mp (List.mem_of_find?_eq_some h)

/-- The connection is yet to be given a request, or has been given back. -/
def Frame.prepares (c : ConnId) : Frame → Bool
  | .found _ c' | .performImpl c' _ | .setEntry c' _ _ | .onDone c' | .dequeue c' _ => c' = c
  | _ => false

/-- The connection is used, and nobody is to perform a request on it or to give it back. -/
structure State.Quiet (s : State T) (c : ConnId) : Prop where
  used : (s.conn c).used
  queue : (s.conn c).requestsQueue = []
  frames : ∀ t, ∀ f ∈ s.stack t, f.prepares c = false

/-- An entry that is settled and yet to be reset. -/
def State.Stale (s : State T) : Prop :=
  ∀ c e, (s.conn c).requestEntry = some e → s.outcomes e.request.id ≠ [] → s.Quiet c

omit [DecidableEq T] in
theorem prepares_uses {c : ConnId} {f : Frame} (h : f.prepares c) : f.uses c = 1 := by
  cases f <;> simp [Frame.prepares] at h <;> simp [Frame.uses, h]

/-! ## Steps -/

section

variable {cfg : Config T} {s s' : State T} {t : T} {fs : List Frame} {input : Input} {f : Frame}

/-- What a step does to a timer: nothing, it arms it, or it releases it. -/
inductive TimerStep (s s' : State T) (t : T) (fs : List Frame) (input : Input) (f : Frame)
    (c : ConnId) (k : Nat) : Prop where
  | kept : ((s'.conn c).timers k).expiry = ((s.conn c).timers k).expiry →
    ((s'.conn c).timers k).used = ((s.conn c).timers k).used → TimerStep s s' t fs input f c k
  | arms (r : Request) : f = .performImpl c r → 0 < r.timeout →
    ((s.conn c).timers k).used = false → s'.stack t = .setEntry c r (some k) :: fs →
    ((s'.conn c).timers k).expiry = some (s.now + nanoseconds (armMs r.timeout)) →
    ((s'.conn c).timers k).used = true → (s.now, r.timeout) ∈ s'.armed r.id →
    k < timerPoolSize → TimerStep s s' t fs input f c k
  | releases (e : RequestEntry) : f.ends input c → (s.conn c).requestEntry = some e →
    e.timer = some k → ((s'.conn c).timers k).expiry = none → TimerStep s s' t fs input f c k

omit [DecidableEq T] in
theorem TimerStep.of_entry {c : ConnId} {k : Nat} {e : RequestEntry} (hends : f.ends input c)
    (he : (s.conn c).requestEntry = some e)
    (htimers : (s'.conn c).timers k = released (s.conn c).timers e.timer k) :
    TimerStep s s' t fs input f c k := by
  by_cases hk : e.timer = some k
  · exact .releases e hends he hk (by rw [htimers, hk]; simp [released])
  · have hsame : released (s.conn c).timers e.timer k = (s.conn c).timers k := by
      cases htimer : e.timer with
      | none => rfl
      | some k' =>
        exact Function.update_of_ne (fun heq => hk (htimer.trans (congrArg some heq.symm))) _ _
    exact .kept (by rw [htimers, hsame]) (by rw [htimers, hsame])

theorem move_timer (hm : Move cfg s t fs input f s') (c : ConnId) (k : Nat) :
    TimerStep s s' t fs input f c k := by
  cases hm with
  | wait | abort | plain | unwind => exact .kept rfl rfl
  | @arm c' r k' htimeout hpick =>
    by_cases hsame : c = c' ∧ k = k'
    · obtain ⟨rfl, rfl⟩ := hsame
      exact .arms r rfl htimeout (pickTimer_unused hpick) (by simp) (by simp) (by simp) (by simp)
        (pickTimer_lt hpick)
    · by_cases hc : c = c'
      · subst hc
        have hk : k ≠ k' := fun heq => hsame ⟨rfl, heq⟩
        exact .kept (by simp [hk]) (by simp [hk])
      · exact .kept (by simp [hc]) (by simp [hc])
  | @reject c' _ e he | @timeOut c' e he | @resolve c' e hinput he | @resolve_throws c' e hinput he =>
    by_cases hc : c = c'
    · subst hc
      exact .of_entry (by simp_all [Frame.ends]) he (by simp)
    · exact .kept (by simp [hc]) (by simp [hc])
  | @reject_throws _ c' e hf he =>
    by_cases hc : c = c'
    · subst hc
      exact .of_entry (by rcases hf with ⟨error, rfl⟩ | rfl <;> simp [Frame.ends]) he (by simp)
    · exact .kept (by simp [hc]) (by simp [hc])
  | @insertTimeout c' k' =>
    by_cases hc : c = c'
    · subst hc
      by_cases hk : k = k' <;> refine .kept ?_ ?_ <;> simp [hk]
    · exact .kept (by simp [hc]) (by simp [hc])
  | _ =>
    refine .kept ?_ ?_ <;> simp [Function.update_apply] <;> grind -ring -linarith

theorem move_armed (hm : Move cfg s t fs input f s') {id : Nat} {entry : Nat × Int}
    (h : entry ∈ s.armed id) : entry ∈ s'.armed id := by
  cases hm with
  | wait | abort | plain | unwind => exact h
  | _ =>
    simp [Function.update_apply]
    grind -ring -linarith

/-- A timer comes to a request in `performImpl`. -/
theorem move_setEntry (hm : Move cfg s t fs input f s') (hstack : s.stack t = f :: fs)
    {u : T} {c : ConnId} {r : Request} {k : Nat} (hg : .setEntry c r (some k) ∈ s'.stack u) :
    .setEntry c r (some k) ∈ s.stack u ∨ (f = .performImpl c r ∧ 0 < r.timeout ∧
      ((s'.conn c).timers k).expiry = some (s.now + nanoseconds (armMs r.timeout)) ∧
      (s.now, r.timeout) ∈ s'.armed r.id) := by
  by_cases hu : u = t
  · subst hu
    rw [hstack]
    cases hm with
    | wait | abort => exact .inl (hstack ▸ hg)
    | plain hp => cases hp <;> simp at hg <;> grind -ring -linarith
    | arm htimeout hpick =>
      simp at hg
      rcases hg with ⟨rfl, rfl, rfl⟩ | hg
      · exact .inr ⟨rfl, htimeout, by simp, by simp⟩
      · exact .inl (List.mem_cons_of_mem _ hg)
    | _ => simp at hg ⊢ <;> grind -ring -linarith [State.continuation]
  · rw [hm.stack, Function.update_of_ne hu] at hg
    exact .inl hg

/-- An entry goes when the connection is given back. -/
theorem move_entry_gone (hm : Move cfg s t fs input f s') {c : ConnId} {e : RequestEntry}
    (he : (s.conn c).requestEntry = some e) : (s'.conn c).requestEntry = some e ∨
      f = .rejected c ∨ f = .resolved c ∨
      ∃ r timer, f = .setEntry c r timer ∧ (s'.conn c).requestEntry = some ⟨r, timer⟩ := by
  cases hm with
  | wait | abort | plain | unwind => exact .inl he
  | _ =>
    simp [Function.update_apply]
    try grind -ring -linarith

theorem move_setEntry_gone (hm : Move cfg s t fs input f s') (hstack : s.stack t = f :: fs)
    (hleaves : ∀ g ∈ fs, g.request = none) {u : T} {c : ConnId} {r : Request} {timer : Option Nat}
    (hg : .setEntry c r timer ∈ s.stack u) : .setEntry c r timer ∈ s'.stack u ∨
      (f = .setEntry c r timer ∧ (s'.conn c).requestEntry = some ⟨r, timer⟩) := by
  by_cases hu : u = t
  · subst hu
    rw [hstack] at hg
    rcases List.mem_cons.mp hg with rfl | hg
    · cases hm with
      | wait | abort => exact .inl (by simp [hstack])
      | plain hp => cases hp
      | setEntry => exact .inr ⟨rfl, by simp⟩
      | reject_throws hf => rcases hf with ⟨error, heq⟩ | heq <;> cases heq
    · cases hleaves _ hg
  · rw [hm.stack, Function.update_of_ne hu]
    exact .inl hg

theorem move_resets (hm : Move cfg s t fs input f s') (hstack : s.stack t = f :: fs) {u : T}
    {c : ConnId} (hg : .rejected c ∈ s'.stack u ∨ .resolved c ∈ s'.stack u) :
    (.rejected c ∈ s.stack u ∨ .resolved c ∈ s.stack u) ∨
      ∃ e, (s'.conn c).requestEntry = some e ∧
        ∀ k, e.timer = some k → ((s'.conn c).timers k).expiry = none := by
  by_cases hu : u = t
  · subst hu
    rw [hstack]
    cases hm with
    | wait | abort => exact .inl (hstack ▸ hg)
    | plain hp => cases hp <;> simp at hg <;> grind -ring -linarith
    | @reject c' _ e he | @timeOut c' e he | @resolve c' e hinput he =>
      by_cases hc : c = c'
      · subst hc
        exact .inr ⟨e, by simp [he], fun k hk => by simp [hk, released]⟩
      · simp [hc] at hg ⊢
        grind -ring -linarith [State.continuation]
    | _ => simp at hg ⊢ <;> grind -ring -linarith [State.continuation]
  · rw [hm.stack, Function.update_of_ne hu] at hg
    exact .inl hg

theorem move_now (hm : Move cfg s t fs input f s') : s'.now = s.now := by
  cases hm <;> rfl

theorem move_onReady (hm : Move cfg s t fs input f s') (hstack : s.stack t = f :: fs) {u : T}
    {events : List Ready} (hg : .onReady events ∈ s'.stack u) :
    .onReady events ∈ s.stack u ∨ (u = t ∧ ∃ e, f = .onReady (e :: events)) := by
  by_cases hu : u = t
  · subst hu
    rw [hstack]
    cases hm with
    | wait | abort => exact .inl (hstack ▸ hg)
    | plain hp => cases hp <;> simp at hg <;> grind -ring -linarith
    | _ => simp at hg ⊢ <;> grind -ring -linarith [State.continuation]
  · rw [hm.stack, Function.update_of_ne hu] at hg
    exact .inl hg

theorem move_handleTimeout (hm : Move cfg s t fs input f s') (hstack : s.stack t = f :: fs)
    (halone : ∀ c, .handleTimeout c ∉ fs) {c : ConnId} (hg : .handleTimeout c ∈ s'.stack t) :
    (f = .handleTimeout c ∧ s'.stack t = s.stack t ∧ s'.conn = s.conn) ∨
      ∃ k events, f = .onReady (.timer c k :: events) ∧ s'.conn = s.conn ∧
        s'.stack t = .handleTimeout c :: .eraseTimeout c k :: .onReady events :: fs := by
  cases hm with
  | wait | abort =>
    simp [hstack] at hg
    rcases hg with heq | hg
    · exact .inl ⟨heq.symm, rfl, rfl⟩
    · exact absurd hg (halone c)
  | plain hp => cases hp <;> simp at hg <;> grind -ring -linarith
  | _ => simp at hg ⊢ <;> grind -ring -linarith [State.continuation]

theorem move_alone (hm : Move cfg s t fs input f s') (hstack : s.stack t = f :: fs)
    (halone : ∀ c, .handleTimeout c ∉ fs) (c : ConnId) : .handleTimeout c ∉ (s'.stack t).tail := by
  intro hg
  cases hm with
  | wait | abort =>
    simp [hstack] at hg
    exact halone c hg
  | plain hp => cases hp <;> simp at hg <;> grind -ring -linarith [List.mem_of_mem_tail]
  | _ => simp at hg <;> grind -ring -linarith [State.continuation, List.mem_of_mem_tail]

theorem move_timedOut (hm : Move cfg s t fs input f s') {id time : Nat}
    (h : .timedOut time ∈ s'.outcomes id) : .timedOut time ∈ s.outcomes id ∨
      ∃ c e, f = .handleTimeout c ∧ (s.conn c).requestEntry = some e ∧ e.request.id = id ∧
        time = s.now := by
  cases hm with
  | wait | abort | plain | unwind => exact .inl h
  | _ =>
    simp [Function.update_apply] at h
    grind -ring -linarith

theorem move_quiet (hm : Move cfg s t fs input f s') (hstack : s.stack t = f :: fs) {c : ConnId}
    (h : s.Quiet c) (hentry : (s'.conn c).requestEntry ≠ none) : s'.Quiet c := by
  obtain ⟨hused, hqueue, hframes⟩ := h
  have htop := hframes t f (hstack ▸ List.mem_cons_self)
  have hrest : ∀ g ∈ fs, g.prepares c = false :=
    fun g hg => hframes t g (hstack ▸ List.mem_cons_of_mem _ hg)
  refine ⟨?_, ?_, fun u g hg => ?_⟩
  · cases hm with
    | wait | abort | plain | unwind => exact hused
    | _ =>
      simp [Function.update_apply]
      grind -ring -linarith [Frame.prepares]
  · cases hm with
    | wait | abort | plain | unwind => exact hqueue
    | _ =>
      simp [Function.update_apply]
      grind -ring -linarith [Frame.prepares]
  · by_cases hu : u = t
    · subst hu
      cases hm with
      | wait | abort => exact hframes u g hg
      | plain hp =>
        simp only [State.goto, Function.update_self, List.mem_append] at hg
        rcases hg with hg | hg
        · cases hp <;> simp at hg <;> grind -ring -linarith [Frame.prepares]
        · exact hrest g hg
      | rejected | resolved =>
        simp [Function.update_apply] at hg hentry
        grind -ring -linarith [Frame.prepares]
      | _ => simp at hg <;> grind -ring -linarith [Frame.prepares, State.continuation]
    · rw [hm.stack, Function.update_of_ne hu] at hg
      exact hframes u g hg

theorem move_stale [Fintype T] (hm : Move cfg s t fs input f s') (hstack : s.stack t = f :: fs)
    (h : s.Stale) (husers : ∀ c, s.users c ≤ s.mark c) : s'.Stale := by
  intro c e he hsettled
  have hentry : (s'.conn c).requestEntry ≠ none := by simp [he]
  by_cases hold : (s.conn c).requestEntry = some e
  · by_cases hpending : s.outcomes e.request.id = []
    · have hparked : 1 ≤ s.parked c := by simp [State.parked, hold, unsettled, hpending]
      obtain ⟨hframes, hone, hused⟩ := users_parked (husers c) hparked
      have hqueue : (s.conn c).requestsQueue = [] := by
        simp [State.parked, hold, unsettled, hpending] at hone
        exact hone
      refine move_quiet hm hstack ⟨hused, hqueue, fun u g hg => ?_⟩ hentry
      by_contra hprepares
      have huses := prepares_uses (Bool.eq_true_of_not_eq_false hprepares)
      rw [hframes u g hg] at huses
      cases huses
    · exact move_quiet hm hstack (h c e hold hpending) hentry
  · obtain rfl := (move_entry hm he).resolve_left hold
    obtain ⟨hbelow, hothers, hparked, hused⟩ :=
      users_top (husers c) hstack (by simp [Frame.uses])
    have hqueue : (s.conn c).requestsQueue = [] := by
      simp [State.parked] at hparked
      exact hparked.1
    cases hm with
    | wait | abort => exact absurd he hold
    | plain hp => cases hp
    | reject_throws hf => rcases hf with ⟨error, heq⟩ | heq <;> cases heq
    | setEntry =>
      refine ⟨by simpa using hused, by simpa using hqueue, fun u g hg => ?_⟩
      by_contra hprepares
      have huses := prepares_uses (Bool.eq_true_of_not_eq_false hprepares)
      by_cases hu : u = t
      · subst hu
        simp at hg
        rcases hg with rfl | hg
        · cases huses
        · rw [hbelow g hg] at huses
          cases huses
      · simp [hu] at hg
        rw [hothers u hu g hg] at huses
        cases huses

omit [DecidableEq T] in
theorem overtakes_of_mem {c : ConnId} {e : RequestEntry} {k : Nat} {events : List Ready}
    (he : (s.conn c).requestEntry = some e) (htimer : e.timer = some k)
    (hg : .onReady events ∈ fs) (hmem : .timer c k ∈ events) : s.overtakes c fs := by
  obtain ⟨r, timer⟩ := e
  cases htimer
  simp only [State.overtakes, he, List.any_eq_true]
  exact ⟨_, hg, by simpa using hmem⟩

end

/-! ## Runs -/

/-- A thread with nothing under way takes up frames that have no connection. -/
theorem State.Stale.begun {s s' : State T} {t : T} {gs : List Frame} (h : s.Stale)
    (hb : Begins s s' t gs) (hgs : ∀ g ∈ gs, ∀ c, g.uses c = 0) : s'.Stale := by
  intro c e he hsettled
  rw [hb.conn c] at he
  rw [hb.outcomes] at hsettled
  obtain ⟨hused, hqueue, hframes⟩ := h c e he hsettled
  refine ⟨by rwa [hb.conn c], by rwa [hb.conn c], fun u g hg => ?_⟩
  rcases hb.old hg with hg | hg
  · exact hframes u g hg
  · by_contra hprepares
    have huses := prepares_uses (Bool.eq_true_of_not_eq_false hprepares)
    rw [hgs g hg c] at huses
    cases huses

theorem stale_step [Fintype T] {cfg : Config T} {s s' : State T} {event : Event T} (h : s.Stale)
    (husers : ∀ c, s.users c ≤ s.mark c) (hs : Happens cfg s event s') : s'.Stale := by
  cases hs with
  | nothing => exact h
  | tick =>
    intro c e he hsettled
    obtain ⟨hused, hqueue, hframes⟩ := h c e he hsettled
    exact ⟨hused, hqueue, hframes⟩
  | frame hstack hm => exact move_stale hm hstack h husers
  | poll hstack =>
    refine h.begun (.poll hstack) fun g hg c => ?_
    rw [List.mem_singleton.mp hg]
    rfl
  | call hstack =>
    refine h.begun (.call hstack) fun g hg c => ?_
    simp only [List.mem_cons, List.not_mem_nil, or_false] at hg
    rcases hg with rfl | rfl <;> rfl

end Pistache.Experimental
