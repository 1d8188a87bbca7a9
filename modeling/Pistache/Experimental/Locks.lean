import Pistache.Experimental.Threads

/-!
# No thread locks what it holds

A send that fails inside `Client::processRequestQueue` ends a request there, whose callback
processes the queues again; a timeout holds `timeoutsLock` while its callback may send the next
request.

* `Frame.wants` — the mutex that the next step of a frame locks.
* `State.Nested` — what stands above a frame that holds a mutex, and that mutexes are held by
  frames.
* `no_self_deadlock` — where neither happens, no thread comes to lock a mutex that it holds.
-/

set_option autoImplicit false

namespace Pistache.Experimental

open Stacks

variable {T : Type} [DecidableEq T]

/-! ## Mutexes -/

/-- The mutex that the next step of the frame locks. -/
def Frame.wants (s : State T) (t : T) : Frame → Option (Mutex T)
  | .pickConnection _ 0 => some .connsLock
  | .enqueue _ => some .queuesLock
  | .processRequestQueue => some .queuesLock
  | .pick (_ :: _) 0 => some .connsLock
  | .insertTimeout _ _ => some (.timeoutsLock t)
  | .onReady (.timer _ _ :: _) => some (.timeoutsLock t)
  | .onReady (.socket c .readable :: _) =>
    if (s.conn c).listed then none else some (.timeoutsLock t)
  | _ => none

/-- The mutex that the next step of the thread locks. -/
def State.wants (cfg : Config T) (s : State T) (t : T) : Option (Mutex T) :=
  match s.stack t with
  | [] => if t ∈ cfg.workers then some (.handlingMutex t) else none
  | f :: _ => f.wants s t

/-- The thread is in the loops of `Client::processRequestQueue`. -/
def Frame.queues : Frame → Bool
  | .pick _ _ | .dequeue _ _ => true
  | _ => false

/-- The thread is in `handleTimeout`, called by `handleReadableEntry`. -/
def Frame.timing : Frame → Bool
  | .eraseTimeout _ _ => true
  | _ => false

/-- The send fails. -/
def Input.fails : Input → Bool
  | .send .ECONNREFUSED | .send .error => true
  | _ => false

/-- The send ends the loop of `asyncSendRequestImpl` with success. -/
def Input.completes (size totalWritten : Nat) : Input → Bool
  | .send result =>
    match iteration size totalWritten result with
    | .resolve _ => true
    | _ => false
  | _ => false

/-- No send fails where the frames below go through the queues, and none that has a timer
completes where they are in a timeout. -/
def Frame.calm (s : State T) (input : Input) (fs : List Frame) : Frame → Bool
  | .asyncSendRequestImpl c _ _ => !fs.any Frame.queues || (s.conn c).socket.isSome
  | .send _ r timer totalWritten =>
    (!fs.any Frame.queues || !input.fails) &&
      (!fs.any Frame.timing || timer.isNone || !input.completes r.size totalWritten)
  | _ => true

def calm (s : State T) : Event T → Bool
  | .tick _ => true
  | .thread t input =>
    match s.stack t with
    | [] => true
    | f :: fs => f.calm s input fs

/-! ## What stands above a mutex -/

/-- What `Client::processRequestQueue` calls on its own thread, short of an error. -/
def Frame.performs : Frame → Bool
  | .performImpl _ _ | .setEntry _ _ _ | .asyncSendRequest _ _ _ | .asyncSendRequestImpl _ _ _
  | .send _ _ _ _ | .insertTimeout _ _ | .throwing _ => true
  | _ => false

/-- The frame locks `timeoutsLock`. -/
def Frame.inserts : Frame → Bool
  | .insertTimeout _ _ => true
  | _ => false

/-- The frame handles a batch. -/
def Frame.handles : Frame → Bool
  | .onReady _ => true
  | _ => false

/-- A frame above others: it performs a request where these go through the queues, inserts no
timer where these are in a timeout, and has none below where it handles a batch. -/
@[mk_iff]
structure Above (f : Frame) (fs : List Frame) : Prop where
  queues : fs.any Frame.queues → f.performs
  timing : fs.any Frame.timing → f.inserts = false
  bottom : f.handles → fs = []

/-- The stacks are built so, and a thread that has a mutex has a frame that holds it. -/
structure State.Nested (s : State T) : Prop where
  above : ∀ t, Tower Above (s.stack t)
  held : ∀ m t, s.locked m = some t → ∃ f ∈ s.stack t, f.lock t = some m

/-! ## Steps -/

omit [DecidableEq T] in
theorem plain_above {cfg : Config T} {s : State T} {t : T} {fs gs : List Frame} {input : Input}
    {f : Frame} (hcalm : f.calm s input fs) (hp : Plain cfg s t input f gs) (h : Above f fs)
    (hrest : Tower Above fs) : Tower Above (gs ++ fs) := by
  obtain ⟨hqueues, htiming, hbottom⟩ := h
  cases hp <;> simp [Frame.calm, -List.any_eq_true, -List.any_eq_false] at hcalm <;>
    simp [Tower, above_iff, hrest, Frame.queues, Frame.timing, -List.any_eq_true, -IsEmpty.forall_iff] <;>
    grind -ring -linarith [Frame.performs, Frame.inserts, Frame.handles, Input.fails]

omit [DecidableEq T] in
/-- Where a promise is settled, nothing below goes through the queues. -/
theorem continuation_above {s : State T} {f g : Frame} {fs : List Frame} (h : Above f fs)
    (hrest : Tower Above fs) (hf : f.performs = false) (r : Request)
    (hg : g.queues = false ∧ g.timing = false ∧ g.inserts = false ∧ g.handles = false) :
    Tower Above (s.continuation r ++ g :: fs) := by
  have hqueues : fs.any Frame.queues = false := by
    by_contra hany
    rw [h.queues (Bool.eq_true_of_not_eq_false hany)] at hf
    cases hf
  have hbelow : Above g fs := ⟨by simp [hqueues], fun _ => hg.2.2.1, by simp [hg.2.2.2]⟩
  unfold State.continuation
  split
  · refine ⟨⟨?_, fun _ => rfl, nofun⟩, hbelow, hrest⟩
    simp [hg.1, hqueues]
  · exact ⟨hbelow, hrest⟩

theorem move_above {cfg : Config T} {s s' : State T} {t : T} {fs : List Frame} {input : Input}
    {f : Frame} (hstack : s.stack t = f :: fs) (hcalm : f.calm s input fs)
    (hm : Move cfg s t fs input f s') (h : Tower Above (f :: fs)) : Tower Above (s'.stack t) := by
  obtain ⟨⟨hqueues, htiming, hbottom⟩, hrest⟩ := h
  cases hm with
  | wait | abort =>
    simp only [State.abort, hstack]
    exact ⟨⟨hqueues, htiming, hbottom⟩, hrest⟩
  | plain hp =>
    simp only [State.goto, Function.update_self]
    exact plain_above hcalm hp ⟨hqueues, htiming, hbottom⟩ hrest
  | reject | timeOut | resolve =>
    rw [State.goto_stack]
    exact continuation_above ⟨hqueues, htiming, hbottom⟩ hrest rfl _ ⟨rfl, rfl, rfl, rfl⟩
  | connect | ready_writable | connection_tls =>
    rw [State.goto_stack]
    split <;> simp [Tower, above_iff, hrest, Frame.queues, Frame.timing, -List.any_eq_true, -IsEmpty.forall_iff] <;>
      grind -ring -linarith [Frame.performs, Frame.inserts, Frame.handles]
  | connection_throws _ _ hgs =>
    rcases hgs with rfl | rfl <;>
      simp [Tower, above_iff, hrest, Frame.queues, Frame.timing, -List.any_eq_true, -IsEmpty.forall_iff] <;>
      grind -ring -linarith [Frame.performs, Frame.inserts, Frame.handles]
  | send_timed hinput htotal =>
    simp [Frame.calm, Input.completes, hinput, htotal, -List.any_eq_false] at hcalm
    simp [Tower, above_iff, hrest, -List.any_eq_true]
    grind -ring -linarith [Frame.performs, Frame.inserts, Frame.handles]
  | caught hfs | catch_ hfs | unwind hfs =>
    subst hfs
    simp [Tower, above_iff, -List.any_eq_true] at hrest ⊢
    grind -ring -linarith [Frame.performs, Frame.inserts, Frame.handles]
  | _ =>
    simp [Tower, above_iff, hrest, Frame.queues, Frame.timing, -List.any_eq_true, -IsEmpty.forall_iff]
    try grind -ring -linarith [Frame.performs, Frame.inserts, Frame.handles]

theorem unlock_some {locked : Mutex T → Option T} {lock : Option (Mutex T)} {m : Mutex T} {u : T}
    (h : unlock locked lock m = some u) : locked m = some u ∧ lock ≠ some m := by
  cases lock with
  | none => exact ⟨h, nofun⟩
  | some m' =>
    simp only [unlock, Function.update_apply] at h
    split at h
    · cases h
    · rename_i hne
      exact ⟨h, fun heq => hne (Option.some.inj heq).symm⟩

omit [DecidableEq T] in
theorem plain_held {cfg : Config T} {s : State T} {t : T} {gs : List Frame} {input : Input}
    {f : Frame} (hp : Plain cfg s t input f gs) {m : Mutex T} (h : f.lock t = some m) :
    ∃ g ∈ gs, g.lock t = some m := by
  cases hp <;> cases h <;> simp [Frame.lock]

/-- A thread that has a mutex keeps a frame that holds it where the step leaves it one. -/
theorem held_kept {s s' : State T} {t u : T} {f : Frame} {fs : List Frame} {m : Mutex T}
    (hstack : s.stack t = f :: fs) (hother : s'.stack = Function.update s.stack t (s'.stack t))
    (htop : f.lock t = some m → ∃ g ∈ s'.stack t, g.lock t = some m)
    (hbelow : ∀ g ∈ fs, g.lock t = some m → g ∈ s'.stack t)
    (h : ∃ g ∈ s.stack u, g.lock u = some m) : ∃ g ∈ s'.stack u, g.lock u = some m := by
  by_cases hu : u = t
  · subst hu
    obtain ⟨g, hg, hlock⟩ := h
    rw [hstack] at hg
    rcases List.mem_cons.mp hg with rfl | hg
    · exact htop hlock
    · exact ⟨g, hbelow g hg hlock, hlock⟩
  · rw [hother, Function.update_of_ne hu]
    exact h

theorem move_held {cfg : Config T} {s s' : State T} {t : T} {fs : List Frame} {input : Input}
    {f : Frame} (hstack : s.stack t = f :: fs) (hm : Move cfg s t fs input f s')
    (h : ∀ m u, s.locked m = some u → ∃ g ∈ s.stack u, g.lock u = some m) (m : Mutex T) (u : T)
    (hlocked : s'.locked m = some u) : ∃ g ∈ s'.stack u, g.lock u = some m := by
  have hold := h m u
  have hother := hm.stack
  cases hm with
  | wait | abort => exact hold hlocked
  | plain hp =>
    refine held_kept hstack hother (fun hlock => ?_) (fun g hg _ => ?_) (hold hlocked)
    · obtain ⟨g, hg, hlock⟩ := plain_held hp hlock
      exact ⟨g, by simp [hg], hlock⟩
    · simp [hg]
  | unwind hfs =>
    obtain ⟨hlocked, hne⟩ := unlock_some hlocked
    refine held_kept hstack hother nofun (fun g hg hlock => ?_) (hold hlocked)
    rw [hfs] at hg
    rcases List.mem_cons.mp hg with rfl | hg
    · exact absurd hlock hne
    · simp [hg]
  | catch_ hfs hf =>
    refine held_kept hstack hother nofun (fun g hg hlock => ?_) (hold hlocked)
    rw [hfs] at hg
    rcases List.mem_cons.mp hg with rfl | hg
    · rcases hf with rfl | rfl <;> cases hlock
    · simp [hg]
  | lock | ready_timer =>
    simp only [State.goto, State.setLock, Function.update_apply] at hlocked
    split at hlocked
    · cases hlocked
      rename_i hm
      subst hm
      simp [Frame.lock]
    · refine held_kept hstack hother ?_ ?_ (hold hlocked)
      · intro hlock
        cases hlock <;> simp [Frame.lock]
      · simp +contextual
  | unlock | ready_done | eraseTimeout =>
    simp only [State.goto, State.setLock, State.eraseTimeout, State.setTransport,
      Function.update_apply] at hlocked
    split at hlocked
    · cases hlocked
    · rename_i hne
      refine held_kept hstack hother (fun hlock => ?_) ?_ (hold hlocked)
      · cases hlock
        exact absurd rfl hne
      · simp +contextual
  | reject_throws hf =>
    refine held_kept hstack hother ?_ ?_ (hold hlocked)
    · rcases hf with ⟨_, rfl⟩ | rfl <;> exact nofun
    · simp +contextual
  | connect =>
    refine held_kept hstack hother nofun (fun g hg _ => ?_) (hold hlocked)
    simp only [State.goto_stack]
    split <;> simp [hg]
  | thrown hfs | caught hfs =>
    subst hfs
    exact held_kept hstack hother nofun (by simp +contextual) (hold hlocked)
  | @ready_writable c events =>
    refine held_kept hstack hother (fun hlock => ⟨.onReady events, ?_, hlock⟩) ?_ (hold hlocked)
    · simp
    · simp +contextual
  | _ =>
    refine held_kept hstack hother ?_ ?_ (hold hlocked)
    · intro hlock
      cases hlock <;> simp [Frame.lock]
    · simp +contextual

theorem nested_step {cfg : Config T} {s s' : State T} {event : Event T} (h : s.Nested)
    (hcalm : calm s event) (hs : Happens cfg s event s') : s'.Nested := by
  cases hs with
  | nothing => exact h
  | tick => exact ⟨h.above, h.held⟩
  | @frame t input f fs _ hstack hm =>
    have hframe : f.calm s input fs := by simpa [calm, hstack] using hcalm
    refine ⟨fun u => ?_, move_held hstack hm h.held⟩
    by_cases hu : u = t
    · subst hu
      exact move_above hstack hframe hm (hstack ▸ h.above u)
    · rw [hm.stack, Function.update_of_ne hu]
      exact h.above u
  | @poll t events hstack _ hfree =>
    refine ⟨fun u => ?_, fun m u hlocked => ?_⟩
    · by_cases hu : u = t
      · subst hu
        simp [Tower, above_iff]
      · simpa [hu] using h.above u
    · by_cases hu : u = t
      · subst hu
        by_cases hm : m = .handlingMutex u
        · simp [hm, Frame.lock]
        · simp [hm] at hlocked
          obtain ⟨g, hg, -⟩ := h.held m u hlocked
          rw [hstack] at hg
          cases hg
      · simp [Function.update_apply, hu] at hlocked ⊢
        split at hlocked
        · cases hlocked
          exact absurd rfl hu
        · exact h.held m u hlocked
  | @call t resource timeout size hstack =>
    refine ⟨fun u => ?_, fun m u hlocked => ?_⟩
    · by_cases hu : u = t
      · subst hu
        simp [Tower, above_iff, Frame.queues, Frame.timing, Frame.handles]
      · simpa [hu] using h.above u
    · obtain ⟨g, hg, hlock⟩ := h.held m u hlocked
      by_cases hu : u = t
      · rw [hu, hstack] at hg
        cases hg
      · exact ⟨g, by simpa [hu] using hg, hlock⟩

/-! ## Runs -/

omit [DecidableEq T] in
/-- What stands above a frame that holds a mutex does not lock it. -/
theorem Above.not_wants {s : State T} {t : T} {f g : Frame} {fs : List Frame} {m : Mutex T}
    (h : Above f fs) (hg : g ∈ fs) (hlock : g.lock t = some m) : f.wants s t ≠ some m := by
  obtain ⟨hqueues, htiming, hbottom⟩ := h
  intro hwants
  unfold Frame.lock at hlock
  split at hlock <;> cases hlock
  · have hperforms := hqueues (List.any_eq_true.mpr ⟨_, hg, rfl⟩)
    cases f <;> simp [Frame.wants, Frame.performs] at hwants hperforms
  · have hperforms := hqueues (List.any_eq_true.mpr ⟨_, hg, rfl⟩)
    cases f <;> simp [Frame.wants, Frame.performs] at hwants hperforms
  · have hinsert := htiming (List.any_eq_true.mpr ⟨_, hg, rfl⟩)
    unfold Frame.wants at hwants
    split at hwants <;> try cases hwants
    · cases hinsert
    · rw [hbottom rfl] at hg
      cases hg
    · rw [hbottom rfl] at hg
      cases hg
  · unfold Frame.wants at hwants
    split at hwants <;> try cases hwants
    split at hwants <;> cases hwants

omit [DecidableEq T] in
theorem Frame.wants_lock {s : State T} {t : T} {f : Frame} {m : Mutex T}
    (h : f.wants s t = some m) : f.lock t ≠ some m := by
  unfold Frame.wants at h
  split at h <;> try cases h
  all_goals simp [Frame.lock]
  split at h <;> cases h
  simp

/-- **No self-deadlock**: where no send fails inside the loops of `Client::processRequestQueue`,
and none with a timer completes inside a timeout, no thread comes to lock what it holds. -/
theorem no_self_deadlock (cfg : Config T) (events : List (Event T))
    (h : Machine.Always (next cfg) (fun s event => calm s event) start events) (t : T) (m : Mutex T)
    (hwants : (run cfg start events).wants cfg t = some m) :
    (run cfg start events).locked m ≠ some t := by
  have hnested : (run cfg start events).Nested :=
    always_inv (P := fun s event => calm s event) (I := State.Nested)
      ⟨fun t => trivial, by simp [start]⟩ (fun s event s' h hP hs => nested_step h hP hs) h
  intro hlocked
  obtain ⟨g, hg, hlock⟩ := hnested.held m t hlocked
  have habove := hnested.above t
  unfold State.wants at hwants
  cases hstack : (run cfg start events).stack t with
  | nil =>
    rw [hstack] at hg
    cases hg
  | cons f fs =>
    rw [hstack] at hg hwants habove
    rcases List.mem_cons.mp hg with rfl | hg
    · exact Frame.wants_lock hwants hlock
    · exact habove.1.not_wants hg hlock hwants

/-- A call that queues its request while the transport goes through the queues waits for another
thread. -/
theorem no_self_deadlock_queueing :
    (run small start (connecting (lit "h") 0 ++ performing ++ queueing (lit "h") 0 ++
      respondingQueued ++ (queueing (lit "h") 0).take 3)).locked .queuesLock ≠ some false :=
  no_self_deadlock small _ (by decide) false .queuesLock (by decide)

/-- The send of a queued request fails. -/
def failingSend : List (Event Bool) :=
  connecting (lit "h") 0 ++ performing ++ queueing (lit "h") 0 ++ respondingQueued ++
    [worker (.send .error), worker .go, worker .return_, worker .go, worker .go]

/-- A queued request is sent behind a timeout. -/
def timedSend : List (Event Bool) :=
  connecting (lit "h") 100 ++ performing ++ [worker .go] ++ queueing (lit "h") 100 ++
    [.tick 100000000, worker (.poll [.timer first 0]), worker .go, worker .go, worker .return_,
      worker .go, worker .go, worker (.order [lit "h"]), worker .go, worker .go, worker .go,
      worker .go, worker .go, worker .go, worker (.send (.bytes 5))]

set_option maxRecDepth 8000 in
/-- The transport comes to lock what it holds. -/
theorem self_deadlock :
    ((run small start failingSend).wants small true = some .queuesLock ∧
      (run small start failingSend).locked .queuesLock = some true) ∧
    (run small start timedSend).wants small true = some (.timeoutsLock true) ∧
      (run small start timedSend).locked (.timeoutsLock true) = some true := by
  decide

end Pistache.Experimental
