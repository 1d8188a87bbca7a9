import Mathlib.Logic.Function.Basic
import Pistache.Lib.Machine
import Pistache.Lib.WaitsFor

/-!
# Shutting a reactor down

`AsyncImpl::shutdown` from any threads, with the loops of the workers, `SyncImpl::run` and
`SyncImpl::runOnce`.  A step of a thread is one access to a flag, one mutex locked, or one of
`poll` and `handleFds`.

* `step_safe` — a step keeps what the mutexes protect, where no `onReady` calls `shutdown`.
* `shutdown_safe` — then nobody waits in a cycle, and behind a shutdown no handler runs again.
-/

set_option autoImplicit false

namespace Pistache.Aio.Shutdown

variable {W X : Type} [DecidableEq W] [DecidableEq X]

/-- The threads are those of the workers and others. -/
abbrev Thread (W X : Type) := W ⊕ X

/-! ## The model -/

/-- Where a worker is in `SyncImpl::run`. -/
inductive Phase where
  /-- before `AsyncImpl::run` -/
  | created
  /-- at `while (!shutdown_)` -/
  | run
  /-- at `for (;;)` of `runOnce`, before `poller.reg_unreg_mutex_` -/
  | runOnce
  | poll
  /-- `poll` has returned some events -/
  | ready
  /-- before `shutdown_mutex_` -/
  | locking
  /-- behind it -/
  | locked
  /-- in `handleFds` -/
  | onReady
  | left
  deriving DecidableEq, Repr

/-- The worker has `poller.reg_unreg_mutex_` locked. -/
def Phase.registered : Phase → Bool
  | .poll | .ready | .locking | .locked | .onReady => true
  | _ => false

structure SyncImpl (W X : Type) where
  phase : Phase := .created
  shutdown_ : Bool := false
  shutdown_mutex_ : Option (Thread W X) := none
  reg_unreg_mutex_ : Option (Thread W X) := none
  /-- the counter of the event descriptor -/
  shutdownFd : Nat := 0

/-- Where a call of `shutdown` is at one worker. -/
inductive Stage where
  | store
  | lock
  | notify
  deriving DecidableEq, Repr

/-- What a thread does besides `SyncImpl::run`. -/
inductive Activity (W : Type) where
  | idle
  /-- `AsyncImpl::shutdown`, with the workers that are left to it -/
  | shutdown (stage : Stage) (workers : List W)
  /-- handlers are added or detached, with `poller.reg_unreg_mutex_` locked or before it -/
  | register (w : W) (locked : Bool)
  deriving DecidableEq, Repr

structure State (W X : Type) where
  sync : W → SyncImpl W X
  activity : Thread W X → Activity W
  /-- a `shutdown` has returned to a thread that is no worker's -/
  returned : Bool

inductive Event (W X : Type) where
  /-- `AsyncImpl::run` starts the thread -/
  | start (w : W)
  /-- the worker goes on; `poll` returns some events, or none -/
  | work (w : W) (ready_fds : Bool)
  /-- a thread calls `shutdown`; that of a worker does so in `onReady` -/
  | shutdown (t : Thread W X)
  /-- another thread adds or detaches handlers -/
  | register (x : X) (w : W)
  /-- the call goes on -/
  | proceed (t : Thread W X)

namespace State

def init : State W X := ⟨fun _ => {}, fun _ => .idle, false⟩

def setSync (s : State W X) (w : W) (sync : SyncImpl W X) : State W X :=
  { s with sync := Function.update s.sync w sync }

def setActivity (s : State W X) (t : Thread W X) (activity : Activity W) : State W X :=
  { s with activity := Function.update s.activity t activity }

/-- `SyncImpl::run` and `SyncImpl::runOnce`. -/
def work (s : State W X) (w : W) (ready_fds : Bool) : SyncImpl W X :=
  let sync := s.sync w
  match sync.phase with
  | .created | .left => sync
  | .run => { sync with phase := if sync.shutdown_ then .left else .runOnce }
  | .runOnce =>
    if sync.reg_unreg_mutex_ = none then
      { sync with reg_unreg_mutex_ := some (.inl w), phase := .poll }
    else sync
  | .poll =>
    if ready_fds then { sync with phase := .ready }
    else { sync with reg_unreg_mutex_ := none, phase := .runOnce }
  | .ready =>
    if sync.shutdown_ then { sync with reg_unreg_mutex_ := none, phase := .run }
    else { sync with phase := .locking }
  | .locking =>
    if sync.shutdown_mutex_ = none then
      { sync with shutdown_mutex_ := some (.inl w), phase := .locked }
    else sync
  | .locked =>
    if sync.shutdown_ then
      { sync with shutdown_mutex_ := none, reg_unreg_mutex_ := none, phase := .run }
    else { sync with phase := .onReady }
  | .onReady =>
    { sync with shutdown_mutex_ := none, reg_unreg_mutex_ := none, phase := .runOnce }

/-- `AsyncImpl::shutdown` with `SyncImpl::shutdown`, and the calls that lock
`poller.reg_unreg_mutex_`. -/
def proceed (s : State W X) (t : Thread W X) : State W X :=
  match s.activity t with
  | .idle => s
  | .shutdown _ [] => { s.setActivity t .idle with returned := s.returned || t.isRight }
  | .shutdown .store (w :: ws) =>
    (s.setSync w { s.sync w with shutdown_ := true }).setActivity t (.shutdown .lock (w :: ws))
  | .shutdown .lock (w :: ws) =>
    if (s.sync w).shutdown_mutex_ = none then
      (s.setSync w { s.sync w with shutdown_mutex_ := some t }).setActivity t
        (.shutdown .notify (w :: ws))
    else s
  | .shutdown .notify (w :: ws) =>
    (s.setSync w { s.sync w with
      shutdownFd := (s.sync w).shutdownFd + 1, shutdown_mutex_ := none }).setActivity t
        (.shutdown .store ws)
  | .register w false =>
    if (s.sync w).reg_unreg_mutex_ = none then
      (s.setSync w { s.sync w with reg_unreg_mutex_ := some t }).setActivity t (.register w true)
    else s
  | .register w true =>
    (s.setSync w { s.sync w with reg_unreg_mutex_ := none }).setActivity t .idle

def step (workers : List W) (s : State W X) : Event W X → State W X
  | .start w =>
    if (s.sync w).phase = .created then s.setSync w { s.sync w with phase := .run } else s
  | .work w ready_fds =>
    if s.activity (.inl w) = .idle then s.setSync w (s.work w ready_fds) else s
  | .shutdown (.inl w) =>
    if s.activity (.inl w) = .idle ∧ (s.sync w).phase = .onReady then
      s.setActivity (.inl w) (.shutdown .store workers)
    else s
  | .shutdown (.inr x) =>
    if s.activity (.inr x) = .idle then s.setActivity (.inr x) (.shutdown .store workers) else s
  | .register x w =>
    if s.activity (.inr x) = .idle then s.setActivity (.inr x) (.register w false) else s
  | .proceed t => s.proceed t

def run (workers : List W) (s : State W X) (events : List (Event W X)) : State W X :=
  Machine.run (step workers) s events

/-- The first thread is before a mutex that the second one holds. -/
inductive Waits (s : State W X) : Thread W X → Thread W X → Prop where
  | shutdown {t u : Thread W X} {w : W} {ws : List W} :
    s.activity t = .shutdown .lock (w :: ws) → (s.sync w).shutdown_mutex_ = some u → Waits s t u
  | register {t u : Thread W X} {w : W} :
    s.activity t = .register w false → (s.sync w).reg_unreg_mutex_ = some u → Waits s t u
  | locking {u : Thread W X} {w : W} :
    s.activity (.inl w) = .idle → (s.sync w).phase = .locking →
      (s.sync w).shutdown_mutex_ = some u → Waits s (.inl w) u
  | runOnce {u : Thread W X} {w : W} :
    s.activity (.inl w) = .idle → (s.sync w).phase = .runOnce →
      (s.sync w).reg_unreg_mutex_ = some u → Waits s (.inl w) u

/-! ## What the mutexes protect -/

/-- No `onReady` calls `shutdown`. -/
def Calm (_ : State W X) : Event W X → Prop
  | .shutdown t => t.isRight
  | _ => True

instance (s : State W X) : (event : Event W X) → Decidable (s.Calm event)
  | .shutdown t => inferInstanceAs (Decidable (t.isRight = true))
  | .start _ | .work _ _ | .register _ _ | .proceed _ => inferInstanceAs (Decidable True)

/-- What holds of one worker with its mutexes, and of a worker that has been notified. -/
structure Guarded (s : State W X) (w : W) : Prop where
  idle : s.activity (.inl w) = .idle
  worker_iff : ∀ v, (s.sync w).shutdown_mutex_ = some (.inl v) ↔
    v = w ∧ ((s.sync w).phase = .locked ∨ (s.sync w).phase = .onReady)
  other_iff : ∀ x, (s.sync w).shutdown_mutex_ = some (.inr x) ↔
    ∃ ws, s.activity (.inr x) = .shutdown .notify (w :: ws)
  reg : ∀ v, (s.sync w).reg_unreg_mutex_ = some (.inl v) → v = w ∧ (s.sync w).phase.registered
  register : ∀ x, (s.sync w).reg_unreg_mutex_ = some (.inr x) →
    s.activity (.inr x) = .register w true
  stored : ∀ t ws, s.activity t = .shutdown .lock (w :: ws) ∨
    s.activity t = .shutdown .notify (w :: ws) → (s.sync w).shutdown_ = true
  notified : 0 < (s.sync w).shutdownFd →
    (s.sync w).shutdown_ = true ∧ (s.sync w).phase ≠ .onReady

/-- The workers that a shutdown has passed have been notified, all of them where one has
returned. -/
structure Safe (workers : List W) (s : State W X) : Prop where
  guarded : ∀ w, s.Guarded w
  passed : ∀ t stage ws, s.activity t = .shutdown stage ws →
    ∀ w ∈ workers, w ∈ ws ∨ 0 < (s.sync w).shutdownFd
  returned : s.returned = true → ∀ w ∈ workers, 0 < (s.sync w).shutdownFd

variable {workers : List W} {s : State W X}

omit [DecidableEq X] in
/-- A worker's own step. -/
theorem Guarded.work {w : W} (h : s.Guarded w) (ready_fds : Bool) :
    (s.setSync w (s.work w ready_fds)).Guarded w := by
  obtain ⟨hidle, hworker, hother, hreg, hregister, hstored, hnotified⟩ := h
  cases hphase : (s.sync w).phase <;> constructor <;>
    simp only [setSync, Function.update_self, State.work, hphase] <;>
    grind -ring -linarith [Phase.registered]

omit [DecidableEq X] in
/-- A step of another worker. -/
theorem Guarded.setSync_ne {v w : W} (h : s.Guarded v) (hne : v ≠ w) (sync : SyncImpl W X) :
    (s.setSync w sync).Guarded v := by
  obtain ⟨hidle, hworker, hother, hreg, hregister, hstored, hnotified⟩ := h
  constructor <;> simp only [setSync, Function.update_of_ne hne] <;> assumption

/-- A thread begins or ends a call, with no mutex locked. -/
theorem Guarded.setActivity {v : W} (h : s.Guarded v) {x : X} {activity : Activity W}
    (hold : ∀ w, s.activity (.inr x) ≠ .register w true ∧
      ∀ ws, s.activity (.inr x) ≠ .shutdown .notify (w :: ws))
    (hnew : ∀ w ws, activity ≠ .shutdown .notify (w :: ws) ∧
      activity ≠ .shutdown .lock (w :: ws)) :
    (s.setActivity (.inr x) activity).Guarded v := by
  obtain ⟨hidle, hworker, hother, hreg, hregister, hstored, hnotified⟩ := h
  constructor <;> simp only [State.setActivity, Function.update_apply] <;>
    grind -ring -linarith

/-- A call goes on at the worker `w`: nothing changes for the others. -/
theorem Guarded.setBoth_ne {v w : W} (h : s.Guarded v) (hne : v ≠ w) {x : X}
    {activity : Activity W} (sync : SyncImpl W X)
    (hold : (∃ locked, s.activity (.inr x) = .register w locked) ∨
      ∃ stage ws, s.activity (.inr x) = .shutdown stage (w :: ws))
    (hnew : (∃ locked, activity = .register w locked) ∨ activity = .idle ∨
      (∃ ws, activity = .shutdown .store ws) ∨ ∃ stage ws, activity = .shutdown stage (w :: ws)) :
    ((s.setSync w sync).setActivity (.inr x) activity).Guarded v := by
  obtain ⟨hidle, hworker, hother, hreg, hregister, hstored, hnotified⟩ := h
  constructor <;>
    simp only [State.setActivity, setSync, Function.update_of_ne hne, Function.update_apply] <;>
    grind -ring -linarith

omit [DecidableEq W] [DecidableEq X] in
theorem Guarded.of_eq {s' : State W X} {v : W} (h : s.Guarded v) (hsync : s'.sync = s.sync)
    (hactivity : s'.activity = s.activity) : s'.Guarded v := by
  obtain ⟨hidle, hworker, hother, hreg, hregister, hstored, hnotified⟩ := h
  constructor <;> simp only [hsync, hactivity] <;> assumption

/-- A call goes on. -/
theorem Guarded.proceed (h : ∀ w, s.Guarded w) (t : Thread W X) (v : W) :
    (s.proceed t).Guarded v := by
  cases t with
  | inl u =>
    rw [State.proceed, (h u).idle]
    exact h v
  | inr x =>
    have hv := h v
    cases hactivity : s.activity (.inr x) with
    | idle => simpa only [State.proceed, hactivity] using hv
    | register w locked =>
      cases locked with
      | false =>
        simp only [State.proceed, hactivity]
        split
        · by_cases hne : v = w
          · subst hne
            obtain ⟨hidle, hworker, hother, hreg, hregister, hstored, hnotified⟩ := hv
            constructor <;>
              simp only [State.setActivity, setSync, Function.update_self, Function.update_apply] <;>
              grind -ring -linarith
          · exact hv.setBoth_ne hne _ (.inl ⟨_, hactivity⟩) (.inl ⟨_, rfl⟩)
        · exact hv
      | true =>
        simp only [State.proceed, hactivity]
        by_cases hne : v = w
        · subst hne
          obtain ⟨hidle, hworker, hother, hreg, hregister, hstored, hnotified⟩ := hv
          constructor <;>
            simp only [State.setActivity, setSync, Function.update_self, Function.update_apply] <;>
            grind -ring -linarith
        · exact hv.setBoth_ne hne _ (.inl ⟨_, hactivity⟩) (.inr (.inl rfl))
    | shutdown stage workers =>
      cases workers with
      | nil =>
        simp only [State.proceed, hactivity]
        have hidle : (s.setActivity (.inr x) .idle).Guarded v :=
          hv.setActivity (by simp [hactivity]) (by simp)
        exact hidle.of_eq rfl rfl
      | cons w ws =>
        have hold : ∃ stage ws', s.activity (.inr x) = .shutdown stage (w :: ws') :=
          ⟨_, _, hactivity⟩
        by_cases hne : v = w
        · subst hne
          obtain ⟨hidle, hworker, hother, hreg, hregister, hstored, hnotified⟩ := hv
          cases stage with
          | store | notify =>
            simp only [State.proceed, hactivity]
            constructor <;>
              simp only [State.setActivity, setSync, Function.update_self, Function.update_apply] <;>
              grind -ring -linarith
          | lock =>
            simp only [State.proceed, hactivity]
            split
            · constructor <;>
                simp only [State.setActivity, setSync, Function.update_self,
                  Function.update_apply] <;>
                grind -ring -linarith
            · exact h v
        · cases stage with
          | store =>
            simp only [State.proceed, hactivity]
            exact hv.setBoth_ne hne _ (.inr hold) (.inr (.inr (.inr ⟨_, _, rfl⟩)))
          | lock =>
            simp only [State.proceed, hactivity]
            split
            · exact hv.setBoth_ne hne _ (.inr hold) (.inr (.inr (.inr ⟨_, _, rfl⟩)))
            · exact hv
          | notify =>
            simp only [State.proceed, hactivity]
            exact hv.setBoth_ne hne _ (.inr hold) (.inr (.inr (.inl ⟨_, rfl⟩)))

/-- **One step**, for one worker. -/
theorem Guarded.step (h : ∀ w, s.Guarded w) (event : Event W X) (hcalm : s.Calm event) (v : W) :
    (s.step workers event).Guarded v := by
  cases event with
  | start w =>
    rw [State.step]
    split
    · next hphase =>
      by_cases hne : v = w
      · subst hne
        obtain ⟨hidle, hworker, hother, hreg, hregister, hstored, hnotified⟩ := h v
        constructor <;> simp only [setSync, Function.update_self] <;>
          grind -ring -linarith [Phase.registered]
      · exact (h v).setSync_ne hne _
    · exact h v
  | work w ready_fds =>
    rw [State.step]
    split
    · by_cases hne : v = w
      · subst hne
        exact (h v).work ready_fds
      · exact (h v).setSync_ne hne _
    · exact h v
  | shutdown t =>
    cases t with
    | inl w => cases hcalm
    | inr x =>
      rw [State.step]
      split
      · next hidle => exact (h v).setActivity (by simp [hidle]) (by simp)
      · exact h v
  | register x w =>
    rw [State.step]
    split
    · next hidle => exact (h v).setActivity (by simp [hidle]) (by simp)
    · exact h v
  | proceed t => exact Guarded.proceed h t v

omit [DecidableEq W] [DecidableEq X] in
theorem work_shutdownFd (s : State W X) (w : W) (ready_fds : Bool) :
    (s.work w ready_fds).shutdownFd = (s.sync w).shutdownFd := by
  unfold work
  dsimp only
  split <;> (try split) <;> rfl

omit [DecidableEq X] in
theorem setSync_shutdownFd (s : State W X) (w v : W) (sync : SyncImpl W X)
    (h : (s.sync w).shutdownFd ≤ sync.shutdownFd) :
    (s.sync v).shutdownFd ≤ ((s.setSync w sync).sync v).shutdownFd := by
  simp only [setSync, Function.update_apply]
  split
  · next hv => exact hv ▸ h
  · exact Nat.le_refl _

/-- Nobody reads the counter. -/
theorem step_shutdownFd (workers : List W) (s : State W X) (event : Event W X) (v : W) :
    (s.sync v).shutdownFd ≤ ((s.step workers event).sync v).shutdownFd := by
  cases event with
  | start w =>
    rw [step]
    split
    · exact setSync_shutdownFd s w v _ (Nat.le_refl _)
    · exact Nat.le_refl _
  | work w ready_fds =>
    rw [step]
    split
    · exact setSync_shutdownFd s w v _ (Nat.le_of_eq (work_shutdownFd s w ready_fds).symm)
    · exact Nat.le_refl _
  | shutdown t => cases t <;> rw [step] <;> split <;> exact Nat.le_refl _
  | register x w => rw [step]; split <;> exact Nat.le_refl _
  | proceed t =>
    rw [step, proceed]
    split
    · exact Nat.le_refl _
    · exact Nat.le_refl _
    · exact setSync_shutdownFd s _ v _ (Nat.le_refl _)
    · split
      · exact setSync_shutdownFd s _ v _ (Nat.le_refl _)
      · exact Nat.le_refl _
    · exact setSync_shutdownFd s _ v _ (Nat.le_succ _)
    · split
      · exact setSync_shutdownFd s _ v _ (Nat.le_refl _)
      · exact Nat.le_refl _
    · exact setSync_shutdownFd s _ v _ (Nat.le_refl _)

/-- A shutdown begins with all workers, and goes on behind one that it has notified. -/
theorem step_activity {t : Thread W X} {event : Event W X} {stage : Stage} {ws : List W}
    (h : (s.step workers event).activity t = .shutdown stage ws) :
    ws = workers ∨ (∃ stage', s.activity t = .shutdown stage' ws) ∨
      ∃ w, s.activity t = .shutdown .notify (w :: ws) ∧
        0 < ((s.step workers event).sync w).shutdownFd := by
  cases event with
  | start w | work w ready_fds =>
    right; left
    rw [step] at h
    split at h <;> exact ⟨stage, h⟩
  | shutdown u =>
    cases u with
    | inl w | inr x =>
      rw [step] at h
      split at h
      · simp only [setActivity, Function.update_apply] at h
        split at h
        · cases h
          exact .inl rfl
        · exact .inr (.inl ⟨stage, h⟩)
      · exact .inr (.inl ⟨stage, h⟩)
  | register x w =>
    rw [step] at h
    split at h
    · simp only [setActivity, Function.update_apply] at h
      split at h
      · cases h
      · exact .inr (.inl ⟨stage, h⟩)
    · exact .inr (.inl ⟨stage, h⟩)
  | proceed u =>
    rw [step] at h ⊢
    unfold proceed at h ⊢
    right
    split at h <;> (try split at h) <;>
      simp_all [setActivity, setSync, Function.update_apply] <;> grind -ring -linarith

theorem step_returned {event : Event W X} (h : (s.step workers event).returned = true) :
    s.returned = true ∨ ∃ t stage, s.activity t = .shutdown stage [] := by
  cases event with
  | start w | work w ready_fds | register x w =>
    rw [step] at h
    split at h <;> exact .inl h
  | shutdown t =>
    cases t with
    | inl w | inr x =>
      rw [step] at h
      split at h <;> exact .inl h
  | proceed t =>
    rw [step, proceed] at h
    split at h
    · exact .inl h
    · next stage hactivity => exact .inr ⟨t, stage, hactivity⟩
    · exact .inl h
    · split at h <;> exact .inl h
    · exact .inl h
    · split at h <;> exact .inl h
    · exact .inl h

/-- **One step** keeps what the mutexes protect. -/
theorem step_safe (h : Safe workers s) (event : Event W X) (hcalm : s.Calm event) :
    Safe workers (s.step workers event) where
  guarded := Guarded.step h.guarded event hcalm
  passed t stage ws hactivity w hw := by
    have hle := step_shutdownFd workers s event w
    rcases step_activity hactivity with rfl | ⟨stage', hold⟩ | ⟨v, hold, hnotified⟩
    · exact .inl hw
    · exact (h.passed t stage' ws hold w hw).imp_right fun hpos => Nat.lt_of_lt_of_le hpos hle
    · rcases h.passed t .notify (v :: ws) hold w hw with hmem | hpos
      · rcases List.mem_cons.mp hmem with rfl | hmem
        · exact .inr hnotified
        · exact .inl hmem
      · exact .inr (Nat.lt_of_lt_of_le hpos hle)
  returned hreturned w hw := by
    have hle := step_shutdownFd workers s event w
    rcases step_returned hreturned with hold | ⟨t, stage, hold⟩
    · exact Nat.lt_of_lt_of_le (h.returned hold w hw) hle
    · rcases h.passed t stage [] hold w hw with hmem | hpos
      · cases hmem
      · exact Nat.lt_of_lt_of_le hpos hle

omit [DecidableEq W] [DecidableEq X] in
theorem init_safe (workers : List W) : Safe workers (init : State W X) where
  guarded w := by
    constructor <;> simp [init]
  passed t stage ws h := by cases h
  returned h := by cases h

omit [DecidableEq W] [DecidableEq X] in
/-- A worker waits in its loop. -/
theorem Guarded.waits_worker {w : W} {v : Thread W X} (h : s.Guarded w)
    (hwaits : s.Waits (.inl w) v) :
    (s.sync w).phase = .locking ∨ (s.sync w).phase = .runOnce := by
  have hidle := h.idle
  cases hwaits with
  | shutdown hactivity | register hactivity =>
    rw [hidle] at hactivity
    cases hactivity
  | locking _ hphase => exact .inl hphase
  | runOnce _ hphase => exact .inr hphase

omit [DecidableEq W] [DecidableEq X] in
/-- A thread that has `shutdown_mutex_` locked waits for nobody. -/
theorem Safe.not_waits_of_mutex (h : Safe workers s) {w : W} {u v : Thread W X}
    (hmutex : (s.sync w).shutdown_mutex_ = some u) : ¬s.Waits u v := by
  intro hwaits
  cases u with
  | inl u =>
    obtain ⟨rfl, hphase⟩ := ((h.guarded w).worker_iff u).mp hmutex
    rcases (h.guarded u).waits_worker hwaits with hwaits | hwaits <;> simp [hwaits] at hphase
  | inr x =>
    obtain ⟨ws, hactivity⟩ := ((h.guarded w).other_iff x).mp hmutex
    cases hwaits with
    | shutdown hlock | register hlock =>
      rw [hactivity] at hlock
      cases hlock

omit [DecidableEq W] [DecidableEq X] in
/-- Only a worker waits itself while another thread waits for it: one that adds or detaches
handlers. -/
theorem Safe.waits (h : Safe workers s) {t u v : Thread W X} (htu : s.Waits t u)
    (huv : s.Waits u v) : (∃ x, t = .inr x) ∧ ∃ w, u = .inl w := by
  have hregister : ∀ (w : W) (y : X), (s.sync w).reg_unreg_mutex_ = some (.inr y) →
      ¬s.Waits (.inr y) v := by
    intro w y hreg hwaits
    have hactivity := (h.guarded w).register y hreg
    cases hwaits with
    | shutdown hlock | register hlock =>
      rw [hactivity] at hlock
      cases hlock
  cases htu with
  | shutdown _ hmutex | locking _ _ hmutex => exact absurd huv (h.not_waits_of_mutex hmutex)
  | @register _ _ w hactivity hreg =>
    cases t with
    | inl t =>
      rw [(h.guarded t).idle] at hactivity
      cases hactivity
    | inr x =>
      cases u with
      | inl u => exact ⟨⟨x, rfl⟩, u, rfl⟩
      | inr y => exact absurd huv (hregister w y hreg)
  | @runOnce _ w _ hphase hreg =>
    cases u with
    | inl u =>
      have hregistered := ((h.guarded w).reg u hreg).2
      rw [hphase] at hregistered
      cases hregistered
    | inr y => exact absurd huv (hregister w y hreg)

omit [DecidableEq W] [DecidableEq X] in
/-- Nobody waits in a cycle. -/
theorem Safe.not_deadlocked (h : Safe workers s) : ¬WaitsFor.Deadlocked s.Waits :=
  WaitsFor.not_deadlocked_of_rank (fun t => if t.isRight then 0 else 1)
    fun _ t u v _ htu huv => by
      obtain ⟨⟨x, rfl⟩, w, rfl⟩ := h.waits htu huv
      exact Nat.zero_lt_one

/-- **Shutting down.**  In every run in which no `onReady` calls `shutdown`, no threads wait for
each other in a cycle; and when a shutdown has returned to another thread, no worker is in an
`onReady`, and the event descriptor of each is readable. -/
theorem shutdown_safe (workers : List W) (events : List (Event W X))
    (hcalm : Machine.Always (step workers) Calm init events) :
    let s := run workers init events
    ¬WaitsFor.Deadlocked s.Waits ∧ (s.returned = true → ∀ w ∈ workers,
      (s.sync w).phase ≠ .onReady ∧ 0 < (s.sync w).shutdownFd ∧ (s.sync w).shutdown_ = true) := by
  intro s
  have hstep : ∀ (s : State W X) (event : Event W X), Safe workers s → s.Calm event →
      Safe workers (s.step workers event) :=
    fun _ event h hcalm => step_safe h event hcalm
  have h : Safe workers s := Machine.Always.inv hstep events _ (init_safe workers) hcalm
  refine ⟨h.not_deadlocked, fun hreturned w hw => ?_⟩
  have hpos := h.returned hreturned w hw
  exact ⟨((h.guarded w).notified hpos).2, hpos, ((h.guarded w).notified hpos).1⟩

/-- One worker, in its loop up to `onReady`. -/
def handling : List (Event Unit Unit) :=
  [.start (), .work () true, .work () true, .work () true, .work () true, .work () true,
    .work () true]

/-- Another thread shuts the worker down, and the worker leaves its loop. -/
def shuttingDown : List (Event Unit Unit) :=
  handling ++ [.shutdown (.inr ()), .proceed (.inr ()), .work () true, .proceed (.inr ()),
    .proceed (.inr ()), .proceed (.inr ())]

theorem shutdown_safe_shuttingDown :
    (run [()] init shuttingDown).returned = true ∧
      0 < ((run [()] init shuttingDown).sync ()).shutdownFd := by
  have hcalm : Machine.Always (step [()]) Calm init shuttingDown := by decide
  have hreturned : (run [()] init shuttingDown).returned = true := by decide
  exact ⟨hreturned, ((shutdown_safe [()] shuttingDown hcalm).2 hreturned () (by decide)).2.1⟩

/-- An `onReady` that calls `shutdown` waits for its own thread. -/
theorem onReady_deadlocks :
    WaitsFor.Deadlocked (run [()] init
      (handling ++ [.shutdown (.inl ()), .proceed (.inl ())] : List (Event Unit Unit))).Waits :=
  WaitsFor.deadlocked_of_self (t := .inl ()) (.shutdown
    (show _ = Activity.shutdown .lock [()] by decide) (show _ = some (Sum.inl ()) by decide))

end State

end Pistache.Aio.Shutdown
