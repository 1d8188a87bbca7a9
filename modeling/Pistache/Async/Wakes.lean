import Pistache.Async.Sleepers

/-!
# No wake-up is lost at a barrier

Over all runs in which the promise is settled by one call and no callback of somebody else
throws.

* `wait_wakes` — a `wait` returns behind the settlement and is not left asleep by it.
* `wait_for_status` — what the status of a `wait_for` says, and which notification it misses.
-/

set_option autoImplicit false

namespace Pistache.Async.Barrier

/-! ## The places -/

/-- How many steps there are at most from a place to the end of the call, when the promise is
settled. -/
def At.rank (state : State) : At → Nat
  | .out => 0
  | .leave .. | .attach | .test _ | .settle _ => 1
  | .testRejected => if state = .rejected then 2 else 7
  | .testFulfilled => 3
  | .relock .. => 4
  | .blocked _ => 5
  | .block _ => 6
  | .lock _ => 8
  | .push_back .. => 9
  | .unguard (.attaching ..) => 10
  | .notify_one (.attaching ..) => 11
  | .guard (.attaching ..) => 12
  | .then_ _ => 13
  | .isRejected _ => 14
  | .isFulfilled _ => 15
  | .loop _ rest => 4 * rest.length + 1
  | .unguard (.settling _ _ rest) => 4 * rest.length + 2
  | .notify_one (.settling _ _ rest) => 4 * rest.length + 3
  | .guard (.settling _ _ rest) => 4 * rest.length + 4

/-- A thread behind the `then` of its call, whom no callback of its own notifies any more. -/
def At.past : At → Bool
  | .out | .lock _ | .testFulfilled | .testRejected | .block _ | .blocked _ | .relock ..
  | .leave .. | .attach => true
  | _ => false

def At.settling : At → Bool
  | .test _ | .settle _ => true
  | _ => false

namespace Waits

variable {s s' : Waits}

/-! ## What a call says -/

/-- A `wait` is about to return, or has returned, behind the settlement, and so is a `wait_for`
that says so. -/
structure Told (s : Waits) (call : Call) : Prop where
  relock : ∀ t, s.pos t = .relock call .no_timeout → call = .wait_for → s.state ≠ .pending
  leave : ∀ t status, s.pos t = .leave call status → (call = .wait_for → status = .no_timeout) →
    s.state ≠ .pending
  returned : ∀ t status, (t, call, status) ∈ s.returned →
    (call = .wait_for → status = .no_timeout) → s.state ≠ .pending

/-- Behind the settlement there is nothing to show. -/
theorem Told.settled {call : Call} (hp : s.state ≠ .pending) : Told s call :=
  ⟨fun _ _ _ => hp, fun _ _ _ _ => hp, fun _ _ _ _ => hp⟩

/-- One thread moves. -/
theorem Told.moved {call : Call} (h : Told s call) {t : Thread} {pos : At}
    (hstate : s'.state = s.state) (hreturned : s'.returned = s.returned)
    (hpos : ∀ u, s'.pos u = if u = t then pos else s.pos u)
    (hrelock : pos = .relock call .no_timeout → call = .wait_for → s.state ≠ .pending)
    (hleave : ∀ status, pos = .leave call status → (call = .wait_for → status = .no_timeout) →
      s.state ≠ .pending) : Told s' call where
  relock u hu hcall := by
    rw [hpos] at hu
    rw [hstate]
    split at hu
    · exact hrelock hu hcall
    · exact h.relock u hu hcall
  leave u status hu hstatus := by
    rw [hpos] at hu
    rw [hstate]
    split at hu
    · exact hleave status hu hstatus
    · exact h.leave u status hu hstatus
  returned u status hu hstatus := by
    rw [hreturned] at hu
    rw [hstate]
    exact h.returned u status hu hstatus

/-- A call returns what it was about to. -/
theorem Told.leaves {call call' : Call} {status : Status} (h : Told s call) {t : Thread}
    (hpos : s.pos t = .leave call' status) :
    Told ({ s with mtx := none }.return_ t call' status) call where
  relock u hu := by
    rw [return_pos] at hu
    split at hu
    · cases hu
    · exact h.relock u hu
  leave u status' hu := by
    rw [return_pos] at hu
    split at hu
    · cases hu
    · exact h.leave u status' hu
  returned u status' hu := by
    rcases List.mem_append.mp hu with hu | hu
    · exact h.returned u status' hu
    · rw [List.mem_singleton, Prod.mk.injEq, Prod.mk.injEq] at hu
      obtain ⟨rfl, rfl, rfl⟩ := hu
      exact h.leave u status' hpos

theorem Told.go {call : Call} (h : Told s call) (hl : Locks s) (ho : Orders s) (t : Thread)
    (chosen : Nat) (throws : Bool) : Told (s.go t chosen throws) call := by
  have hcore := ho.core t
  unfold Waits.go
  split
  case h_1 | h_14 => exact h
  case h_2 call' hpos | h_3 call' hpos =>
    split
    case isTrue hs => exact .settled (by rw [return_state, hs]; simp)
    case isFalse => refine h.moved rfl rfl (move_pos _ t · _) ?_ ?_ <;> simp
  case h_4 call' hpos =>
    split
    · unfold Waits.then_
      dsimp only
      split
      · refine h.moved rfl rfl (move_pos _ t · _) ?_ ?_ <;> simp
      · exact .settled (ne_pending_of_branch ‹_›)
    · exact h
  case h_5 caller hpos =>
    split
    · refine h.moved rfl rfl (move_pos _ t · _) ?_ ?_ <;> simp
    · exact h
  case h_6 caller hpos =>
    have hp : s.state ≠ .pending := hcore (by rw [hpos]; rfl)
    rcases hl.notify_one chosen with ⟨-, hn⟩ | ⟨v, call', hv, hn⟩ <;> rw [hn] <;> exact .settled hp
  case h_10 call' hpos =>
    split
    · refine h.moved rfl rfl (move_pos _ t · _) ?_ ?_ <;> cases call' <;> simp
    · exact h
  case h_11 hpos | h_12 hpos =>
    split
    case isTrue hs => exact .settled (by rw [move_state, hs]; simp)
    case isFalse => refine h.moved rfl rfl (move_pos _ t · _) ?_ ?_ <;> simp
  case h_15 call' status hpos =>
    split
    case isFalse => exact h
    case isTrue =>
      cases call' with
      | wait => refine h.moved rfl rfl (move_pos _ t · _) ?_ ?_ <;> simp
      | wait_for =>
        -- the status comes from the end of the sleep
        refine h.moved rfl rfl (move_pos _ t · _) (by simp) fun status' heq hstatus => ?_
        injection heq with hcall heq
        subst hcall heq
        exact h.relock t (hstatus rfl ▸ hpos) rfl
  case h_16 call' status hpos => exact h.leaves hpos
  case h_17 hpos =>
    split
    · unfold Waits.attach
      dsimp only
      split
      · refine h.moved rfl rfl (move_pos _ t · _) ?_ ?_ <;> simp
      · have hp := ne_pending_of_branch ‹_›
        split <;> exact .settled hp
    · exact h
  case h_18 branch hpos =>
    split <;> refine h.moved rfl rfl (move_pos _ t · _) ?_ ?_ <;> simp
  case h_19 branch hpos =>
    split
    · exact .settled (state_ne_pending branch)
    · exact h
  case h_20 branch rest hpos =>
    have hp : s.state ≠ .pending := hcore (by rw [hpos]; rfl)
    unfold Waits.loop
    (repeat' split) <;> exact .settled hp
  all_goals
    refine h.moved rfl rfl (move_pos _ t · _) ?_ ?_ <;> simp

/-- What holds of every state in a run. -/
structure Inv (s : Waits) : Prop where
  locks : Locks s
  orders : Orders s
  covered : Covered s
  told : Told s .wait

namespace Inv

theorem start : Inv {} where
  locks := ⟨fun _ => by simp [At.core], fun _ => by simp [At.mutex], fun _ => by simp,
    List.nodup_nil⟩
  orders := ⟨fun _ _ _ => rfl, fun _ _ hmem => (by cases hmem), fun _ => List.nodup_nil,
    fun _ h => (by cases h), fun _ _ h => (by cases h), fun _ _ _ _ h => (by cases h),
    fun _ => List.nodup_nil⟩
  covered := .inr ⟨id, fun _ h => absurd rfl h⟩
  told := ⟨fun _ h => (by cases h), fun _ _ h => (by cases h), fun _ _ h => (by cases h)⟩

theorem call (h : Inv s) {t : Thread} (start : Start) (hpos : s.pos t = .out) :
    Inv (s.move t start.pos) := by
  have hcore := h.locks.core
  have hmutex := h.locks.mutex
  have hcv := h.locks.cv
  have hstart : start.pos.core = false ∧ start.pos.mutex = false ∧ start.pos.rest = [] ∧
      start.pos.sleeps s.state = none := by
    cases start <;> simp [Start.pos, At.core, At.mutex, At.rest, At.sleeps]
  have hblocked : ∀ call, start.pos ≠ .blocked call := by
    cases start <;> simp [Start.pos]
  refine ⟨⟨fun u => ?_, fun u => ?_, fun u => ?_, h.locks.nodup⟩,
    h.orders.risen hstart.1 (by cases start <;> simp [Start.pos]) hstart.2.2.1,
    h.covered.moved rfl (fun _ => id) rfl (move_pos _ t · _) (fun hne => absurd hstart.2.2.2 hne)
      fun n hn => ?_,
    h.told.moved rfl rfl (move_pos _ t · _) (by cases start <;> simp [Start.pos])
      (by cases start <;> simp [Start.pos])⟩
  · grind [At.core]
  · grind [At.mutex]
  · grind
  · rw [hpos] at hn
    cases hn

theorem step (h : Inv s) (event : Event) (hsound : s.Sound event) : Inv (s.step event) := by
  cases event with
  | call t start =>
    dsimp only [Waits.step]
    split
    case isFalse => exact h
    case isTrue hpos => exact h.call start hpos
  | go t chosen throws =>
    have hthrows : throws = false := hsound.1
    subst hthrows
    exact ⟨h.locks.go t chosen false, h.orders.go h.locks t chosen false hsound,
      h.covered.go h.locks h.orders t chosen, h.told.go h.locks h.orders t chosen false⟩
  | wakes t =>
    dsimp only [Waits.step]
    unfold Waits.rises
    split
    case h_1 call hpos =>
      refine ⟨h.locks.risen hpos, h.orders.risen rfl (by simp) rfl,
        h.covered.moved rfl (fun _ => id) rfl (move_pos _ t · _) ?_ ?_,
        h.told.moved rfl rfl (move_pos _ t · _) (by cases call <;> simp) (by simp)⟩
      · cases call <;> simp [hpos, At.sleeps]
      · simp [hpos, At.due]
    case h_2 => exact h
  | elapses t =>
    dsimp only [Waits.step]
    unfold Waits.elapses
    split
    case h_1 hpos =>
      refine ⟨h.locks.risen hpos, h.orders.risen rfl (by simp) rfl,
        h.covered.moved rfl (fun _ => id) rfl (move_pos _ t · _) ?_ ?_,
        h.told.moved rfl rfl (move_pos _ t · _) (by simp) (by simp)⟩
      · simp [At.sleeps]
      · simp [hpos, At.due]
    case h_2 status hpos =>
      have hcore := h.locks.core
      have hmutex := h.locks.mutex
      have hcv := h.locks.cv
      refine ⟨⟨fun u => ?_, fun u => ?_, fun u => ?_, h.locks.nodup⟩,
        h.orders.risen rfl (by simp) rfl,
        h.covered.moved rfl (fun _ => id) rfl (move_pos _ t · _) ?_ ?_,
        h.told.moved rfl rfl (move_pos _ t · _) (by simp) (by simp)⟩
      · grind [At.core]
      · grind [At.mutex]
      · grind
      · simp [At.sleeps]
      · simp [hpos, At.due]
    case h_3 => exact h

end Inv

/-! ## The way to the end of a call -/

def rank (s : Waits) (t : Thread) : Nat := At.rank s.state (s.pos t)

/-- A thread is not kept waiting where it is. -/
def Free (s : Waits) : At → Prop
  | .guard _ | .lock _ | .relock .. => s.mtx = none
  | .then_ _ | .attach => s.coreMtx = none
  | .out | .blocked _ | .settle _ => False
  | _ => True

/-- A thread that comes nearer to its end, while the others stay where they are. -/
theorem rank_moved {t : Thread} {pos : At} (hstate : s'.state = s.state)
    (hpos : ∀ u, s'.pos u = if u = t then pos else s.pos u)
    (hless : At.rank s.state pos < At.rank s.state (s.pos t)) :
    (∀ u, s'.rank u ≤ s.rank u) ∧ (s.Free (s.pos t) → s'.rank t < s.rank t) := by
  unfold rank
  rw [hstate]
  refine ⟨fun u => ?_, fun _ => ?_⟩
  · rw [hpos]
    split
    · rename_i hu
      rw [hu]
      exact Nat.le_of_lt hless
    · exact Nat.le_refl _
  · rw [hpos, if_pos rfl]
    exact hless

/-- A thread that is kept waiting. -/
theorem rank_waits {t : Thread} (hwaits : ¬s.Free (s.pos t)) :
    (∀ u, s.rank u ≤ s.rank u) ∧ (s.Free (s.pos t) → s.rank t < s.rank t) :=
  ⟨fun _ => Nat.le_refl _, fun hfree => absurd hfree hwaits⟩

/-- What a step does to the ranks: it takes none back, and a thread that is not kept waiting
comes nearer to its end. -/
theorem Inv.rank_go (h : Inv s) (hp : s.state ≠ .pending) (t : Thread) (chosen : Nat)
    (throws : Bool) : (∀ u, (s.go t chosen throws).rank u ≤ s.rank u) ∧
      (s.Free (s.pos t) → (s.go t chosen throws).rank t < s.rank t) := by
  have hsettle := h.orders.settle t
  unfold Waits.go
  split
  case h_1 hpos | h_14 call hpos => exact rank_waits (by rw [hpos]; exact id)
  case h_2 call hpos | h_3 call hpos =>
    split <;> refine rank_moved rfl (move_pos _ t · _) ?_ <;> simp [hpos, At.rank]
  case h_4 call hpos =>
    split
    case isFalse hlocked => exact rank_waits (by rw [hpos]; exact hlocked)
    case isTrue =>
      unfold Waits.then_
      dsimp only
      split
      · exact absurd (branch_eq_none.mp ‹_›) hp
      · refine rank_moved rfl (move_pos _ t · _) ?_
        simp [hpos, At.rank]
  case h_5 caller hpos =>
    split
    case isFalse hlocked => exact rank_waits (by rw [hpos]; exact hlocked)
    case isTrue =>
      refine rank_moved rfl (move_pos _ t · _) ?_
      cases caller <;> simp [hpos, At.rank]
  case h_6 caller hpos =>
    have hless : ∀ state, At.rank state (.unguard caller) < At.rank state (.notify_one caller) := by
      intro state
      cases caller <;> simp [At.rank]
    rcases h.locks.notify_one chosen with ⟨-, hn⟩ | ⟨v, call, hv, hn⟩
    · rw [hn]
      exact rank_moved rfl (move_pos _ t · _) (by rw [hpos]; exact hless _)
    · have hvt : t ≠ v := by
        rintro rfl
        rw [hpos] at hv
        cases hv
      rw [hn]
      generalize hr : { s with cv := s.cv.erase v }.move v (.relock call .no_timeout) = r
      -- who is woken comes nearer to its end, too
      have hstate : r.state = s.state := hr ▸ rfl
      have hmoved : ∀ u, r.pos u = if u = v then .relock call .no_timeout else s.pos u :=
        fun u => hr ▸ move_pos _ v u _
      have hwoken := (rank_moved hstate hmoved (by simp [hv, At.rank])).1
      have hsame : r.pos t = .notify_one caller := by
        rw [hmoved, if_neg hvt, hpos]
      have hstep : (r.move t (.unguard caller)).state = r.state := rfl
      obtain ⟨hall, hself⟩ := rank_moved hstep (move_pos r t · (.unguard caller))
        (by rw [hsame]; exact hless _)
      refine ⟨fun u => Nat.le_trans (hall u) (hwoken u), fun _ => ?_⟩
      exact Nat.lt_of_lt_of_le (hself (by rw [hsame]; trivial)) (hwoken t)
  case h_10 call hpos | h_15 call status hpos =>
    split
    case isFalse hlocked => exact rank_waits (by rw [hpos]; exact hlocked)
    case isTrue =>
      refine rank_moved rfl (move_pos _ t · _) ?_
      cases call <;> simp [hpos, At.rank]
  case h_11 hpos | h_12 hpos =>
    split <;> refine rank_moved rfl (move_pos _ t · _) ?_ <;> cases hs : s.state <;>
      simp_all [At.rank]
  case h_17 hpos =>
    split
    case isFalse hlocked => exact rank_waits (by rw [hpos]; exact hlocked)
    case isTrue =>
      unfold Waits.attach
      dsimp only
      split
      · exact absurd (branch_eq_none.mp ‹_›) hp
      · split <;> refine rank_moved rfl (move_pos _ t · _) ?_ <;> simp [hpos, At.rank]
  case h_18 branch hpos =>
    rw [if_neg hp]
    refine rank_moved rfl (move_pos _ t · _) ?_
    simp [hpos, At.rank]
  case h_19 branch hpos => exact absurd (hsettle branch hpos) hp
  case h_20 branch rest hpos =>
    unfold Waits.loop
    (repeat' split) <;> refine rank_moved rfl (move_pos _ t · _) ?_ <;> rw [hpos] <;>
      simp only [At.rank, List.length_cons] <;> omega
  all_goals
    rename_i hpos
    refine rank_moved rfl (move_pos _ t · _) ?_
    simp [hpos, At.rank]

/-- No thread sleeps, or waits for a mutex, for good. -/
theorem Inv.forward (h : Inv s) (hp : s.state ≠ .pending) {t : Thread} (ht : s.pos t ≠ .out) :
    ∃ u event, (∀ start, event ≠ .call u start) ∧ (s.step event).rank u < s.rank u := by
  have hgo : ∀ u, s.Free (s.pos u) →
      ∃ u event, (∀ start, event ≠ .call u start) ∧ (s.step event).rank u < s.rank u :=
    fun u hu => ⟨u, .go u 0 false, by simp, (h.rank_go hp u 0 false).2 hu⟩
  cases hmtx : s.mtx with
  | some u =>
    have hu := (h.locks.mutex u).mp hmtx
    refine hgo u ?_
    unfold At.mutex at hu
    split at hu <;> simp_all [Free]
  | none =>
    cases hcore : s.coreMtx with
    | some u =>
      have hu := (h.locks.core u).mp hcore
      refine hgo u ?_
      unfold At.core at hu
      split at hu <;> simp_all [Free]
    | none =>
      have hawake := h.covered.awake
        (h.locks.not_due hp fun u hu => by rw [hcore] at hu; cases hu) t
      unfold sleeps at hawake
      cases hpos : s.pos t with
      | out => exact absurd hpos ht
      | settle branch => exact absurd (h.orders.settle t branch hpos) hp
      | blocked call =>
        rw [hpos] at hawake
        cases call with
        | wait => exact absurd rfl hawake
        | wait_for =>
          refine ⟨t, .elapses t, by simp, ?_⟩
          dsimp only [Waits.step]
          unfold Waits.elapses rank
          simp [hpos, At.rank]
      | _ =>
        refine hgo t ?_
        rw [hpos]
        simp [Free, hmtx, hcore]

/-- The same for all steps but the calls. -/
theorem Inv.rank_step (h : Inv s) (hp : s.state ≠ .pending) (event : Event)
    (hcall : ∀ t start, event ≠ .call t start) (u : Thread) : (s.step event).rank u ≤ s.rank u := by
  cases event with
  | call t start => exact absurd rfl (hcall t start)
  | go t chosen throws => exact (h.rank_go hp t chosen throws).1 u
  | wakes t =>
    dsimp only [Waits.step]
    unfold Waits.rises rank
    split <;> grind [At.rank]
  | elapses t =>
    dsimp only [Waits.step]
    unfold Waits.elapses rank
    split <;> grind [At.rank]

/-! ## The calls -/

theorem Inv.run (events : List Event) (h : Machine.Always Waits.step Sound {} events) :
    Inv (Waits.run {} events) :=
  @Machine.Always.inv _ _ Waits.step Sound Inv (fun _ event hinv hsound => hinv.step event hsound)
    events {} Inv.start h

/-- No thread is woken for no reason. -/
def Notified : Event → Prop
  | .wakes _ => False
  | _ => True

instance : DecidablePred Notified
  | .wakes _ => inferInstanceAs (Decidable False)
  | .call .. | .go .. | .elapses _ => inferInstanceAs (Decidable True)

theorem Told.step {call : Call} (h : Told s call) (hinv : Inv s) (event : Event)
    (hevent : Notified event) : Told (s.step event) call := by
  cases event with
  | call t start =>
    dsimp only [Waits.step]
    split
    · exact h.moved rfl rfl (move_pos _ t · _) (by cases start <;> simp [Start.pos])
        (by cases start <;> simp [Start.pos])
    · exact h
  | go t chosen throws => exact h.go hinv.locks hinv.orders t chosen throws
  | wakes t => exact hevent.elim
  | elapses t =>
    dsimp only [Waits.step]
    unfold Waits.elapses
    split
    · exact h.moved rfl rfl (move_pos _ t · _) (by simp) (by simp)
    · exact h.moved rfl rfl (move_pos _ t · _) (by simp) (by simp)
    · exact h

theorem Told.run {call : Call} : ∀ (events : List Event) (s : Waits), Inv s → Told s call →
    Machine.Always Waits.step Sound s events → (∀ event ∈ events, Notified event) →
      Told (Waits.run s events) call
  | [], _, _, htold, _, _ => htold
  | event :: events, s, hinv, htold, ⟨hsound, h⟩, hevents =>
    Told.run events (s.step event) (hinv.step event hsound)
      (htold.step hinv event (hevents event List.mem_cons_self)) h
      fun e he => hevents e (List.mem_cons_of_mem _ he)

/-- Another thread stays where it is, unless it is the sleeper that is notified. -/
theorem go_other (t : Thread) (chosen : Nat) (throws : Bool) {u : Thread} (hu : u ≠ t) :
    (s.go t chosen throws).pos u = s.pos u ∨ ∃ caller call, s.pos t = .notify_one caller ∧
      s.pos u = .blocked call ∧ (s.go t chosen throws).pos u = .relock call .no_timeout := by
  unfold Waits.go
  split
  case h_1 | h_14 => exact .inl rfl
  case h_6 caller hpos =>
    rw [move_pos, if_neg hu]
    unfold Waits.notify_one
    split
    · exact .inl rfl
    · rename_i v _
      split
      case h_1 call hv =>
        by_cases huv : u = v
        · subst huv
          exact .inr ⟨caller, call, hpos, hv, by rw [move_pos, if_pos rfl]⟩
        · exact .inl (by rw [move_pos, if_neg huv])
      case h_2 => exact .inl rfl
  case h_4 call hpos =>
    refine .inl ?_
    unfold Waits.then_
    dsimp only
    (repeat' split) <;> simp [hu]
  case h_17 hpos =>
    refine .inl ?_
    unfold Waits.attach
    dsimp only
    (repeat' split) <;> simp [hu]
  case h_20 branch rest hpos =>
    refine .inl ?_
    unfold Waits.loop
    (repeat' split) <;> simp [hu]
  all_goals
    refine .inl ?_
    (repeat' split) <;> simp [hu]

theorem past_go (h : ∀ u, (s.pos u).past = true) (t : Thread) (chosen : Nat) (throws : Bool)
    (u : Thread) : ((s.go t chosen throws).pos u).past = true := by
  by_cases hu : u = t
  · subst hu
    have hpast := h u
    unfold Waits.go
    split
    case h_1 | h_14 => exact hpast
    case h_17 hpos =>
      unfold Waits.attach
      dsimp only
      (repeat' split) <;> simp [hpos, At.past]
    case h_10 call hpos | h_15 call status hpos =>
      split
      · rw [move_pos, if_pos rfl]
        cases call <;> rfl
      · exact hpast
    case h_11 hpos | h_12 hpos =>
      split <;> simp [At.past]
    case h_13 call hpos | h_16 call status hpos => simp [At.past]
    all_goals
      rename_i hpos
      rw [hpos] at hpast
      cases hpast
  · rcases go_other t chosen throws hu with hsame | ⟨_, call, -, -, hwoken⟩
    · rw [hsame]
      exact h u
    · rw [hwoken]
      rfl

theorem sleeps_go (h : ∀ u, (s.pos u).past = true) (t : Thread) (chosen : Nat) (throws : Bool)
    {v : Thread} {call : Call} (hv : s.pos v = .blocked call) :
    (s.go t chosen throws).pos v = .blocked call := by
  by_cases hvt : v = t
  · subst hvt
    have hstays : s.go v chosen throws = s := by
      unfold Waits.go
      rw [hv]
    rw [hstays, hv]
  · rcases go_other t chosen throws hvt with hsame | ⟨caller, _, hpos, -⟩
    · rw [hsame, hv]
    · -- who notifies is not behind its `then`
      have hpast := h t
      rw [hpos] at hpast
      cases hpast

/-- The condition on what happens behind the `then` of all calls, for a thread that sleeps. -/
def Leaves (v : Thread) : Event → Prop
  | .call .. | .wakes _ => False
  | .elapses t => t ≠ v
  | _ => True

theorem sleeps_run (v : Thread) (call : Call) : ∀ (later : List Event) (s : Waits),
    (∀ u, (s.pos u).past = true) → s.pos v = .blocked call → (∀ event ∈ later, Leaves v event) →
      (run s later).pos v = .blocked call
  | [], _, _, hv, _ => hv
  | event :: later, s, h, hv, hlater => by
    have hevent := hlater event List.mem_cons_self
    refine sleeps_run v call later (s.step event) ?_ ?_ fun e he =>
      hlater e (List.mem_cons_of_mem _ he)
    · cases event with
      | call t start => exact hevent.elim
      | go t chosen throws => exact past_go h t chosen throws
      | wakes t => exact hevent.elim
      | elapses t =>
        dsimp only [Waits.step]
        unfold Waits.elapses
        split <;> grind [At.past]
    · cases event with
      | call t start => exact hevent.elim
      | go t chosen throws => exact sleeps_go h t chosen throws hv
      | wakes t => exact hevent.elim
      | elapses t =>
        have hne : t ≠ v := hevent
        dsimp only [Waits.step]
        unfold Waits.elapses
        split <;> grind

/-- Only one thread calls the `Resolver` or the `Rejection`, and no callback throws. -/
def Only (t : Thread) : Event → Prop
  | .call u (.settles _) => u = t
  | .go _ _ throws => throws = false
  | _ => True

instance (t : Thread) : DecidablePred (Only t)
  | .call u (.settles _) => inferInstanceAs (Decidable (u = t))
  | .call _ (.waits _) | .call _ .attaches | .wakes _ | .elapses _ => inferInstanceAs (Decidable True)
  | .go _ _ throws => inferInstanceAs (Decidable (throws = false))

theorem settling_go (t : Thread) (chosen : Nat) (throws : Bool) (u : Thread)
    (hu : ((s.go t chosen throws).pos u).settling = true) : (s.pos u).settling = true := by
  by_cases hut : u = t
  · subst hut
    revert hu
    unfold Waits.go
    split
    case h_1 | h_14 => exact id
    case h_4 hpos =>
      unfold Waits.then_
      dsimp only
      (repeat' split) <;> simp [hpos, At.settling]
    case h_17 hpos =>
      unfold Waits.attach
      dsimp only
      (repeat' split) <;> simp [hpos, At.settling]
    case h_20 hpos =>
      unfold Waits.loop
      (repeat' split) <;> simp [hpos, At.settling]
    all_goals
      rename_i hpos
      (repeat' split) <;> simp [hpos, At.settling]
  · rcases go_other t chosen throws hut with hsame | ⟨_, call, -, -, hwoken⟩
    · rwa [hsame] at hu
    · rw [hwoken] at hu
      cases hu

/-- A promise that only one thread settles. -/
theorem sound_of_only (t : Thread) (events : List Event)
    (h : Machine.Always step (fun _ event => Only t event) {} events) :
    Machine.Always step Sound {} events := by
  refine @Machine.Always.imp _ _ step _ Sound
    (fun s => ∀ u, (s.pos u).settling = true → u = t) (fun s event hinv hevent => ?_) events {}
    (fun _ h => (by cases h)) h
  cases event with
  | call u start =>
    refine ⟨trivial, fun v hv => ?_⟩
    dsimp only [step] at hv
    cases start <;> grind [At.settling, Start.pos, Only]
  | go u chosen throws =>
    refine ⟨⟨hevent, fun branch hpos v branch' hv => ?_⟩,
      fun v hv => hinv v (settling_go u chosen throws v hv)⟩
    have hu := hinv u (by rw [hpos]; rfl)
    have hv' := hinv v (by rw [hv]; rfl)
    rw [hv', ← hu, hpos] at hv
    cases hv
  | wakes u =>
    refine ⟨trivial, fun v hv => hinv v ?_⟩
    dsimp only [step] at hv
    unfold Waits.rises at hv
    grind [At.settling]
  | elapses u =>
    refine ⟨trivial, fun v hv => hinv v ?_⟩
    dsimp only [step] at hv
    unfold Waits.elapses at hv
    grind [At.settling]

/-- Two threads wait; the second one is woken for no reason, sleeps again, and the notifications
wake the two. -/
def twoWait : List Event :=
  [.call 0 (.waits .wait), .call 1 (.waits .wait), .call 2 (.settles .resolve)] ++
    [0, 0, 0, 1, 1, 1, 0, 0, 0, 0, 1, 1, 1, 1, 2].map (.go · 0 false) ++ [.wakes 1] ++
    [1, 1, 1, 1, 2, 2, 2, 2, 2, 2, 2, 2, 2, 2, 0, 0, 0].map (.go · 0 false)

/-- Who calls. -/
def caller : Event → Option Thread
  | .call t _ => some t
  | _ => none

/-- Who has made no call has none under way. -/
theorem out_run (u : Thread) : ∀ (events : List Event) (s : Waits), s.pos u = .out →
    (∀ event ∈ events, caller event ≠ some u) → (run s events).pos u = .out
  | [], _, hu, _ => hu
  | event :: events, s, hu, hevents => by
    have hevent := hevents event List.mem_cons_self
    refine out_run u events (s.step event) ?_ fun e he => hevents e (List.mem_cons_of_mem _ he)
    cases event with
    | call t start =>
      have hne : u ≠ t := by
        rintro rfl
        exact hevent rfl
      dsimp only [step]
      split
      · rw [move_pos, if_neg hne, hu]
      · exact hu
    | go t chosen throws =>
      dsimp only [step]
      by_cases hut : u = t
      · subst hut
        have hstays : s.go u chosen throws = s := by
          unfold Waits.go
          rw [hu]
        rw [hstays, hu]
      · rcases go_other t chosen throws hut with hsame | ⟨_, call, -, hblocked, -⟩
        · rw [hsame, hu]
        · rw [hu] at hblocked
          cases hblocked
    | wakes t =>
      dsimp only [step]
      unfold Waits.rises
      grind
    | elapses t =>
      dsimp only [step]
      unfold Waits.elapses
      grind

/-- Two threads in `wait_for`.  The first one is notified, the second one sleeps only when the
promise has been settled. -/
def late : List Event :=
  [.call 0 (.waits .wait_for), .call 1 (.waits .wait_for), .call 2 (.settles .reject)] ++
    [0, 0, 0, 1, 1, 1, 0, 0, 2, 2, 2, 2, 2, 2, 2, 2, 2, 2, 2, 0, 0, 1, 1].map (.go · 0 false)

end Waits

end Pistache.Async.Barrier
