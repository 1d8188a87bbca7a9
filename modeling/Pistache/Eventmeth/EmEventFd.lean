import Mathlib.Logic.Function.Basic
import Pistache.Lib.EventCounter
import Pistache.Lib.Machine

/-!
# The counter of an `EmEventFd`

`EmEventCtr::read` and `EmEventCtr::writeProt` of one `EmEventFd`, called from any threads.  What
a call does with `counter_val_mutex_` locked is one step, which ends with the mutex unlocked
unless the call waits: it then waits on a condition variable and keeps the mutex.

* `EmEventFd.call_step` — a call with the mutex locked is a step of an event counter.
* `System.behaves` — the calls of every run are those of an event counter, and nobody waits for
  a thread that it blocks, as long as no call waits.
-/

set_option autoImplicit false

namespace Pistache.Eventmeth

/-! ## The event -/

/-- `EVM_READ` and `EVM_WRITE` of `flags_`. -/
structure Flags where
  read : Bool := false
  write : Bool := false
  deriving DecidableEq, Repr

/-- An `EmEventFd`.  `blocking` stands for both pointers to condition variables, `ev_` for
whether there is a libevent event, and `interested` for the membership in `interest_`. -/
structure EmEventFd where
  counter_val_ : UInt64
  blocking : Bool
  ev_ : Bool := false
  flags_ : Flags := {}
  interested : Bool := false
  deriving DecidableEq, Repr

/-- The largest count. -/
def maxCount : UInt64 := 0xfffffffffffffffe

inductive Outcome where
  | value (n : UInt64)
  | written
  | EAGAIN
  | EINVAL
  /-- the call waits on its condition variable -/
  | waits
  | thrown (what : String)
  deriving DecidableEq, Repr

namespace EmEventFd

/-- `EmEventFd::make_new`. -/
def make_new (initval : UInt32) (nonblock : Bool) : EmEventFd where
  counter_val_ := initval.toUInt64
  blocking := !nonblock

/-- `EmEventCtr::renewEv`: the libevent event is freed, and a new one added where this one is in
`interest_`.  `EmEvent::ctl` refuses to add an event for writing without a descriptor. -/
def renewEv (fd : EmEventFd) : EmEventFd × Option String :=
  if fd.interested ∧ fd.flags_.write then
    ({ fd with ev_ := false, interested := false }, some "EvCtlAction::Add failed")
  else
    let fd := { fd with ev_ := fd.interested }
    let active := fd.flags_.read ∧ 0 < fd.counter_val_ ∨
      fd.flags_.write ∧ fd.counter_val_ < maxCount
    (fd, if active ∧ ¬fd.ev_ then some "ev_ null" else none)

/-- `EmEventCtr::resetCounterValMutexAlreadyLocked`. -/
def resetCounterVal (fd : EmEventFd) : EmEventFd × Option String :=
  if fd.counter_val_ = 0 then (fd, none)
  else
    let fd := { fd with counter_val_ := 0 }
    if fd.ev_ ∧ fd.flags_.read then fd.renewEv else (fd, none)

/-- `EmEventCtr::read`, with the mutex locked. -/
def read (fd : EmEventFd) : EmEventFd × Outcome :=
  match fd.resetCounterVal with
  | (fd', some what) => (fd', .thrown what)
  | (fd', none) =>
    if fd.counter_val_ ≠ 0 then (fd', .value fd.counter_val_)
    else (fd', if fd.blocking then .waits else .EAGAIN)

/-- `EmEventCtr::writeProt`, with the mutex locked. -/
def write (fd : EmEventFd) (val : UInt64) : EmEventFd × Outcome :=
  let max_writable_val := maxCount - fd.counter_val_
  if val > max_writable_val then (fd, if fd.blocking then .waits else .EAGAIN)
  else
    let fd' := { fd with counter_val_ := fd.counter_val_ + val }
    if fd.ev_ ∧ fd.counter_val_ < maxCount ∧ fd.flags_.write ∧ fd'.counter_val_ ≥ maxCount then
      match fd'.renewEv with
      | (fd', some what) => (fd', .thrown what)
      | (fd', none) => (fd', .written)
    else (fd', .written)

end EmEventFd

/-! ## Threads -/

inductive Call where
  | read (val_out_ptr : Bool)
  | write (val : UInt64)
  deriving DecidableEq, Repr

/-- What a call returns before it locks the mutex. -/
def Call.early : Call → Option Outcome
  | .read val_out_ptr => if val_out_ptr then none else some .EINVAL
  | .write val =>
    if val = 0 then some .written else if val = 0xffffffffffffffff then some .EINVAL else none

def EmEventFd.call (fd : EmEventFd) : Call → EmEventFd × Outcome
  | .read _ => fd.read
  | .write val => fd.write val

/-- Where a thread is. -/
inductive Phase where
  | idle
  /-- before the mutex -/
  | calls (c : Call)
  /-- on its condition variable -/
  | waits (c : Call)
  deriving DecidableEq, Repr

structure Record where
  call : Call
  outcome : Outcome
  deriving DecidableEq, Repr

variable {T : Type} [DecidableEq T]

structure System (T : Type) where
  fd : EmEventFd
  counter_val_mutex_ : Option T
  phase : T → Phase
  log : List Record

inductive Event (T : Type) where
  | call (t : T) (c : Call)
  /-- the thread locks the mutex -/
  | enter (t : T)
  /-- `wait` returns, with or without a notification -/
  | wake (t : T)

namespace System

def start (fd : EmEventFd) : System T where
  fd := fd
  counter_val_mutex_ := none
  phase _ := .idle
  log := []

def goto (s : System T) (t : T) (phase : Phase) : System T :=
  { s with phase := Function.update s.phase t phase }

/-- The mutex is unlocked when the call returns, not while it waits. -/
def critical (s : System T) (t : T) (c : Call) : System T :=
  let (fd, outcome) := s.fd.call c
  let s := { s with fd := fd, log := s.log ++ [Record.mk c outcome] }
  if outcome = .waits then { s with counter_val_mutex_ := some t }.goto t (.waits c)
  else s.goto t .idle

def step (s : System T) : Event T → System T
  | .call t c =>
    match s.phase t, c.early with
    | .idle, none => s.goto t (.calls c)
    | .idle, some outcome => { s with log := s.log ++ [Record.mk c outcome] }
    | _, _ => s
  | .enter t =>
    match s.phase t, s.counter_val_mutex_ with
    | .calls c, none => s.critical t c
    | _, _ => s
  | .wake t =>
    match s.phase t with
    | .waits c => { s with counter_val_mutex_ := none }.goto t (.calls c)
    | _ => s

def run (s : System T) (events : List (Event T)) : System T := Machine.run step s events

/-- A read waits for a write that can not lock the mutex which the reader holds, or the other
way round. -/
def Deadlocked (s : System T) : Prop :=
  ∃ t u c c', s.phase t = .waits c ∧ s.phase u = .calls c' ∧ s.counter_val_mutex_ = some t ∧
    ((∃ p val, c = .read p ∧ c' = .write val) ∨ ∃ val p, c = .write val ∧ c' = .read p)

end System

/-! ## The counter -/

/-- The call as one of an event counter; a call that is invalid or throws is none. -/
def Record.label : Record → Option EventCounter.Label
  | ⟨.read _, .value n⟩ => some (.read n.toNat)
  | ⟨.read _, .EAGAIN⟩ => some (.noRead false)
  | ⟨.read _, .waits⟩ => some (.noRead true)
  | ⟨.write val, .written⟩ => some (.write val.toNat)
  | ⟨.write val, .EAGAIN⟩ => some (.noWrite val.toNat false)
  | ⟨.write val, .waits⟩ => some (.noWrite val.toNat true)
  | _ => none

namespace EmEventFd

/-- `renewEv` would not throw in the call: an event that is added for reading and writing is not
emptied, nor one for writing filled unless it has been removed and is not for reading. -/
def Renewable (fd : EmEventFd) : Call → Prop
  | .read _ => fd.ev_ → fd.flags_.read → fd.flags_.write → fd.counter_val_ = 0
  | .write val => fd.ev_ → fd.flags_.write → (fd.interested ∨ fd.flags_.read) →
    fd.counter_val_ = maxCount ∨ fd.counter_val_.toNat + val.toNat ≠ maxCount.toNat

/-- The call would not wait. -/
def Ready (fd : EmEventFd) : Call → Prop
  | .read _ => fd.blocking → fd.counter_val_ ≠ 0
  | .write val => fd.blocking → fd.counter_val_.toNat + val.toNat ≤ maxCount.toNat

instance (fd : EmEventFd) : (c : Call) → Decidable (fd.Renewable c)
  | .read _ => inferInstanceAs (Decidable (_ → _))
  | .write _ => inferInstanceAs (Decidable (_ → _))

instance (fd : EmEventFd) : (c : Call) → Decidable (fd.Ready c)
  | .read _ => inferInstanceAs (Decidable (_ → _))
  | .write _ => inferInstanceAs (Decidable (_ → _))

/-- What reading comes to. -/
theorem read_eq {fd : EmEventFd} (h : fd.Renewable (.read true)) :
    fd.read.1.counter_val_ = 0 ∧ fd.read.1.blocking = fd.blocking ∧
      fd.read.2 = if fd.counter_val_ = 0 then (if fd.blocking then .waits else .EAGAIN)
        else .value fd.counter_val_ := by
  by_cases hzero : fd.counter_val_ = 0
  · simp [read, resetCounterVal, hzero]
  · by_cases hev : fd.ev_ ∧ fd.flags_.read
    · have hwrite : fd.flags_.write = false := by
        by_contra hwrite
        exact hzero (h hev.1 hev.2 (by simpa using hwrite))
      simp [read, resetCounterVal, renewEv, hzero, hev, hwrite]
    · simp [read, resetCounterVal, hzero, hev]

theorem room_iff {fd : EmEventFd} (hle : fd.counter_val_ ≤ maxCount) (val : UInt64) :
    val > maxCount - fd.counter_val_ ↔ maxCount.toNat < fd.counter_val_.toNat + val.toNat := by
  have hle' := UInt64.le_iff_toNat_le.mp hle
  rw [gt_iff_lt, UInt64.lt_iff_toNat_lt, UInt64.toNat_sub_of_le _ _ hle]
  omega

/-- What writing comes to. -/
theorem write_eq {fd : EmEventFd} {val : UInt64} (hle : fd.counter_val_ ≤ maxCount)
    (h : fd.Renewable (.write val)) :
    (fd.write val).1.blocking = fd.blocking ∧
      if maxCount.toNat < fd.counter_val_.toNat + val.toNat then
        (fd.write val).1.counter_val_ = fd.counter_val_ ∧
          (fd.write val).2 = if fd.blocking then .waits else .EAGAIN
      else
        (fd.write val).1.counter_val_.toNat = fd.counter_val_.toNat + val.toNat ∧
          (fd.write val).2 = .written := by
  by_cases hfull : maxCount.toNat < fd.counter_val_.toNat + val.toNat
  · have hgt : val > maxCount - fd.counter_val_ := (room_iff hle val).mpr hfull
    simp [write, hgt, hfull]
  · have hgt : ¬val > maxCount - fd.counter_val_ := fun hgt => hfull ((room_iff hle val).mp hgt)
    have hsum : (fd.counter_val_ + val).toNat = fd.counter_val_.toNat + val.toNat := by
      have hmax : maxCount.toNat < 2 ^ 64 := UInt64.toNat_lt maxCount
      rw [UInt64.toNat_add, Nat.mod_eq_of_lt]
      omega
    by_cases hrenew : fd.ev_ ∧ fd.counter_val_ < maxCount ∧ fd.flags_.write ∧
        fd.counter_val_ + val ≥ maxCount
    · obtain ⟨hev, hlt, hwrite, hge⟩ := hrenew
      have hat : fd.counter_val_.toNat + val.toNat = maxCount.toNat := by
        have hge' := UInt64.le_iff_toNat_le.mp hge
        omega
      have hneither : ¬(fd.interested ∨ fd.flags_.read) := by
        intro hor
        rcases h hev hwrite hor with heq | hne
        · exact absurd heq (UInt64.ne_of_lt hlt)
        · exact hne hat
      obtain ⟨hinterested, hread⟩ := not_or.mp hneither
      have hmax : fd.counter_val_ + val = maxCount := by
        apply UInt64.toNat_inj.mp
        rw [hsum, hat]
      simp [write, hgt, hev, hlt, hwrite, hmax, renewEv, hinterested, hread, hat]
    · simp [write, hgt, hfull, hrenew, hsum]

/-- **A call** that locks the mutex is a step of an event counter. -/
theorem call_step {fd : EmEventFd} {c : Call} (hle : fd.counter_val_ ≤ maxCount)
    (h : fd.Renewable c) :
    (∃ l, Record.label ⟨c, (fd.call c).2⟩ = some l ∧
      EventCounter.Step maxCount.toNat fd.blocking fd.counter_val_.toNat l
        (fd.call c).1.counter_val_.toNat) ∧ (fd.call c).1.blocking = fd.blocking := by
  cases c with
  | read p =>
    obtain ⟨hcounter, hblocking, houtcome⟩ := read_eq h
    refine ⟨?_, hblocking⟩
    simp only [call, houtcome, hcounter]
    by_cases hzero : fd.counter_val_ = 0
    · rw [if_pos hzero, hzero]
      cases fd.blocking <;> exact ⟨_, rfl, .noRead⟩
    · rw [if_neg hzero]
      refine ⟨_, rfl, .read (Nat.pos_of_ne_zero fun h => hzero ?_)⟩
      exact UInt64.toNat_inj.mp h
  | write val =>
    obtain ⟨hblocking, hwrite⟩ := write_eq hle h
    refine ⟨?_, hblocking⟩
    by_cases hfull : maxCount.toNat < fd.counter_val_.toNat + val.toNat
    · rw [if_pos hfull] at hwrite
      simp only [call, hwrite.1, hwrite.2]
      cases fd.blocking <;> exact ⟨_, rfl, .noWrite hfull⟩
    · rw [if_neg hfull] at hwrite
      simp only [call, hwrite.1, hwrite.2]
      exact ⟨_, rfl, .write (Nat.le_of_not_lt hfull)⟩

/-- A call that is ready does not wait. -/
theorem call_ready {fd : EmEventFd} {c : Call} (hle : fd.counter_val_ ≤ maxCount)
    (h : fd.Renewable c) (hready : fd.Ready c) : (fd.call c).2 ≠ .waits := by
  intro hwaits
  cases c with
  | read p =>
    obtain ⟨-, -, houtcome⟩ := read_eq h
    change fd.read.2 = .waits at hwaits
    rw [houtcome] at hwaits
    by_cases hzero : fd.counter_val_ = 0
    · by_cases hblocking : fd.blocking
      · exact hready hblocking hzero
      · simp [hzero, hblocking] at hwaits
    · simp [hzero] at hwaits
  | write val =>
    obtain ⟨-, hwrite⟩ := write_eq hle h
    change (fd.write val).2 = .waits at hwaits
    by_cases hfull : maxCount.toNat < fd.counter_val_.toNat + val.toNat
    · rw [if_pos hfull, hwaits] at hwrite
      by_cases hblocking : fd.blocking
      · exact absurd (hready hblocking) (Nat.not_le.mpr hfull)
      · simp [hblocking] at hwrite
    · rw [if_neg hfull, hwaits] at hwrite
      cases hwrite.2

end EmEventFd

/-! ## Runs -/

namespace System

def labels (s : System T) : List EventCounter.Label := s.log.filterMap Record.label

/-- The call of the event is valid, and `renewEv` would not throw in it. -/
def Sound (s : System T) : Event T → Prop
  | .call _ c => c ≠ .write 0xffffffffffffffff
  | .enter t => ∀ c, s.phase t = .calls c → s.fd.Renewable c
  | .wake _ => True

/-- The call would not wait, either. -/
def Calm (s : System T) (event : Event T) : Prop :=
  s.Sound event ∧ ∀ t c, event = .enter t → s.phase t = .calls c → s.fd.Ready c

/-- Only the calls that read into nothing are not logged as those of a counter. -/
structure Counts (initial : EmEventFd) (s : System T) : Prop where
  run : EventCounter.Run maxCount.toNat initial.blocking initial.counter_val_.toNat s.labels
    s.fd.counter_val_.toNat
  blocking : s.fd.blocking = initial.blocking
  bound : s.fd.counter_val_ ≤ maxCount
  logged : ∀ r ∈ s.log, r.label = none → r = ⟨.read false, .EINVAL⟩

variable {initial : EmEventFd} {s : System T}

omit [DecidableEq T] in
theorem labels_append (s : System T) (r : Record) :
    (s.log ++ [r]).filterMap Record.label = s.labels ++ r.label.toList := by
  rw [List.filterMap_append, labels]
  cases hl : r.label <;> simp [hl]

theorem critical_log (t : T) (c : Call) :
    (s.critical t c).log = s.log ++ [⟨c, (s.fd.call c).2⟩] ∧
      (s.critical t c).fd = (s.fd.call c).1 := by
  unfold critical
  dsimp only
  split <;> exact ⟨rfl, rfl⟩

/-- What an event can do to the counter and the log. -/
theorem step_cases (s : System T) (event : Event T) :
    ((s.step event).fd = s.fd ∧ (s.step event).log = s.log) ∨
    (∃ t c outcome, event = .call t c ∧ c.early = some outcome ∧
      (s.step event).fd = s.fd ∧ (s.step event).log = s.log ++ [⟨c, outcome⟩]) ∨
    ∃ t c, event = .enter t ∧ s.phase t = .calls c ∧ s.step event = s.critical t c := by
  cases event with
  | call t c =>
    cases hphase : s.phase t with
    | idle =>
      cases hearly : c.early with
      | none => exact .inl (by simp [step, hphase, hearly, goto])
      | some outcome =>
        exact .inr (.inl ⟨t, c, outcome, rfl, hearly, by simp [step, hphase, hearly]⟩)
    | calls | waits => exact .inl (by simp [step, hphase])
  | enter t =>
    cases hphase : s.phase t with
    | calls c =>
      cases hmutex : s.counter_val_mutex_ with
      | none => exact .inr (.inr ⟨t, c, rfl, hphase, by simp [step, hphase, hmutex]⟩)
      | some u => exact .inl (by simp [step, hphase, hmutex])
    | idle | waits => exact .inl (by simp [step, hphase])
  | wake t =>
    cases hphase : s.phase t with
    | waits c => exact .inl (by simp [step, hphase, goto])
    | idle | calls => exact .inl (by simp [step, hphase])

theorem early_cases {c : Call} {outcome : Outcome} (h : c.early = some outcome)
    (hc : c ≠ .write 0xffffffffffffffff) :
    (c = .read false ∧ outcome = .EINVAL) ∨ (c = .write 0 ∧ outcome = .written) := by
  cases c with
  | read p =>
    cases p with
    | false =>
      simp [Call.early] at h ⊢
      exact h.symm
    | true => simp [Call.early] at h
  | write val =>
    by_cases hzero : val = 0
    · simp [Call.early, hzero] at h ⊢
      exact h.symm
    · have hmax : val ≠ 0xffffffffffffffff := fun he => hc (he ▸ rfl)
      simp [Call.early, hzero, hmax] at h

omit [DecidableEq T] in
/-- A call adds itself to the log. -/
theorem Counts.append (h : Counts initial s) {s' : System T} {c : Call} {outcome : Outcome}
    {l : EventCounter.Label} (hlog : s'.log = s.log ++ [⟨c, outcome⟩])
    (hl : Record.label ⟨c, outcome⟩ = some l) (hblocking : s'.fd.blocking = s.fd.blocking)
    (hstep : EventCounter.Step maxCount.toNat s.fd.blocking s.fd.counter_val_.toNat l
      s'.fd.counter_val_.toNat) : Counts initial s' := by
  refine ⟨?_, hblocking.trans h.blocking, ?_, ?_⟩
  · rw [h.blocking] at hstep
    have hlabels : s'.labels = s.labels ++ [l] := by
      rw [labels, hlog, labels_append, hl]
      rfl
    rw [hlabels]
    exact h.run.append (.cons hstep .nil)
  · rw [UInt64.le_iff_toNat_le]
    exact hstep.le (UInt64.le_iff_toNat_le.mp h.bound)
  · intro r hr hnone
    rw [hlog, List.mem_append, List.mem_singleton] at hr
    rcases hr with hr | rfl
    · exact h.logged r hr hnone
    · rw [hl] at hnone
      cases hnone

/-- **One step** keeps the account. -/
theorem step_counts (h : Counts initial s) (event : Event T) (hsound : s.Sound event) :
    Counts initial (s.step event) := by
  rcases step_cases s event with ⟨hfd, hlog⟩ | ⟨t, c, outcome, rfl, hearly, hfd, hlog⟩ |
    ⟨t, c, rfl, hphase, hstep⟩
  · exact ⟨by rw [labels, hlog, hfd]; exact h.run, by rw [hfd]; exact h.blocking,
      by rw [hfd]; exact h.bound, by rw [hlog]; exact h.logged⟩
  · rcases early_cases hearly hsound with ⟨rfl, rfl⟩ | ⟨rfl, rfl⟩
    · refine ⟨?_, by rw [hfd]; exact h.blocking, by rw [hfd]; exact h.bound, ?_⟩
      · rw [labels, hlog, labels_append, hfd]
        simpa [Record.label] using h.run
      · intro r hr hnone
        rw [hlog, List.mem_append, List.mem_singleton] at hr
        exact hr.elim (fun hr => h.logged r hr hnone) id
    · have hbound := UInt64.le_iff_toNat_le.mp h.bound
      exact h.append hlog rfl (by rw [hfd]) (by rw [hfd]; exact .write (v := 0) hbound)
  · obtain ⟨hlog, hfd⟩ := critical_log (s := s) t c
    obtain ⟨⟨l, hl, hcall⟩, hblocking⟩ := EmEventFd.call_step h.bound (hsound c hphase)
    rw [hstep]
    exact h.append hlog hl (by rw [hfd]; exact hblocking) (by rw [hfd]; exact hcall)

theorem goto_phase (s : System T) (t u : T) (phase : Phase) :
    (s.goto t phase).phase u = if u = t then phase else s.phase u :=
  Function.update_apply s.phase t phase u

/-- Nobody waits. -/
theorem step_awake (h : Counts initial s) (hawake : ∀ t c, s.phase t ≠ .waits c)
    (event : Event T) (hcalm : s.Calm event) (t : T) (c : Call) :
    (s.step event).phase t ≠ .waits c := by
  cases event with
  | call u c' =>
    rw [step]
    split
    · rw [goto_phase]
      split
      · exact nofun
      · exact hawake t c
    · exact hawake t c
    · exact hawake t c
  | enter u =>
    rw [step]
    split
    · next c' hphase _ =>
      have hready : (s.fd.call c').2 ≠ .waits :=
        EmEventFd.call_ready h.bound (hcalm.1 c' hphase) (hcalm.2 u c' rfl hphase)
      simp only [critical, if_neg hready, goto_phase]
      split
      · exact nofun
      · exact hawake t c
    · exact hawake t c
  | wake u =>
    rw [step]
    split
    · next c' hphase => exact absurd hphase (hawake u c')
    · exact hawake t c

omit [DecidableEq T] in
theorem start_counts (initial : EmEventFd) (hbound : initial.counter_val_ ≤ maxCount) :
    Counts initial (start initial : System T) :=
  ⟨.nil, rfl, hbound, fun _ hr => by cases hr⟩

omit [DecidableEq T] in
/-- A read that succeeds returns what has been written since the one before it. -/
theorem Counts.reads (h : Counts initial s) {pre post : List Record} {p : Bool} {n : UInt64}
    (hlog : s.log = pre ++ ⟨.read p, .value n⟩ :: post) :
    n.toNat =
      EventCounter.total initial.counter_val_.toNat (pre.filterMap Record.label) := by
  have hrun := h.run
  rw [labels, hlog, List.filterMap_append, List.filterMap_cons] at hrun
  exact hrun.read_total

/-- The calls are those of an event counter, and nobody waits. -/
structure Awake (initial : EmEventFd) (s : System T) : Prop extends Counts initial s where
  awake : ∀ t c, s.phase t ≠ .waits c

theorem run_awake (initial : EmEventFd) (hbound : initial.counter_val_ ≤ maxCount)
    (events : List (Event T)) (hcalm : Machine.Always step Calm (start initial) events) :
    Awake initial (run (start initial) events) :=
  Machine.Always.inv
    (fun _ event h hcalm =>
      ⟨step_counts h.toCounts event hcalm.1, step_awake h.toCounts h.awake event hcalm⟩)
    events (start initial) ⟨start_counts initial hbound, fun _ _ => nofun⟩ hcalm

/-- **An event counter.**  In every run of reads and writes in which none of them would wait (and
none writes the invalid value, or renews an event that can not be added), each call does what it
does to an event counter, and nobody waits for a thread that it blocks. -/
theorem behaves (initial : EmEventFd) (hbound : initial.counter_val_ ≤ maxCount)
    (events : List (Event T)) (hcalm : Machine.Always step Calm (start initial) events) :
    Counts initial (run (start initial) events) ∧
      (∀ pre post p n, (run (start initial) events).log = pre ++ ⟨.read p, .value n⟩ :: post →
        n.toNat =
          EventCounter.total initial.counter_val_.toNat (pre.filterMap Record.label)) ∧
      ¬(run (start initial) events).Deadlocked := by
  have h := run_awake initial hbound events hcalm
  refine ⟨h.toCounts, fun _ _ _ _ hlog => h.reads hlog, ?_⟩
  rintro ⟨t, _, c, _, hwaits, -⟩
  exact h.awake t c hwaits

omit [DecidableEq T] in
theorem calm_call {t : T} {c : Call} (hc : c ≠ .write 0xffffffffffffffff) :
    s.Calm (.call t c) :=
  ⟨hc, fun _ _ he => nomatch he⟩

omit [DecidableEq T] in
theorem calm_enter {t : T} {c : Call} (hphase : s.phase t = .calls c)
    (hrenew : s.fd.Renewable c) (hready : s.fd.Ready c) : s.Calm (.enter t) := by
  constructor
  · intro c' hc'
    rw [hphase] at hc'
    cases hc'
    exact hrenew
  · intro u c' hu hc'
    cases hu
    rw [hphase] at hc'
    cases hc'
    exact hready

/-- Two writes, and then the read of both by another thread. -/
def twoWrites : List (Event Bool) :=
  [.call true (.write 3), .enter true, .call false (.read true), .call true (.write 4),
    .enter true, .enter false]

theorem behaves_twoWrites :
    (run (start (EmEventFd.make_new 0 false)) twoWrites).log =
        [⟨.write 3, .written⟩, ⟨.write 4, .written⟩, ⟨.read true, .value 7⟩] ∧
      ¬(run (start (EmEventFd.make_new 0 false)) twoWrites).Deadlocked :=
  ⟨by decide, (behaves (EmEventFd.make_new 0 false) (by decide) twoWrites
    ⟨calm_call (by decide), calm_enter rfl (by decide) (by decide), calm_call (by decide),
      calm_call (by decide), calm_enter rfl (by decide) (by decide),
      calm_enter rfl (by decide) (by decide), trivial⟩).2.2⟩

/-- A read of a blocking event waits with the mutex locked, so that no write can wake it. -/
theorem read_deadlocks :
    (run (start (EmEventFd.make_new 0 false))
      [.call true (.read true), .enter true, .call false (.write 1)]).Deadlocked :=
  ⟨true, false, .read true, .write 1, by decide, by decide, by decide, .inl ⟨true, 1, rfl, rfl⟩⟩

end System

end Pistache.Eventmeth
