import Pistache.Async.Barrier
import Mathlib.Data.List.Nodup

/-!
# Sleepers and their notifications

Each thread that may come to sleep at a barrier has a notification of its own on the way: while
the promise is Pending it is a request that its core holds, and afterwards one that the loop has
still to call.  A notification may wake another thread than the one that attached it; the two
then change their notifications.

* `Locks`, `Orders`, `Covered` — the invariants.
* `Covered.awake` — no `wait` is asleep without a notification to come.
-/

set_option autoImplicit false

namespace Pistache.Async.Barrier

theorem state_ne_pending (branch : Branch) : Branch.state branch ≠ .pending := by
  cases branch <;> simp [Branch.state]

theorem branch_eq_none {state : State} : state.branch = none ↔ state = .pending := by
  cases state <;> simp [State.branch]

theorem ne_pending_of_branch {state : State} {branch : Branch} (h : state.branch = some branch) :
    state ≠ .pending := by
  rintro rfl
  cases h

/-! ## The places -/

def Caller.rest : Caller → List Request
  | .attaching .. => []
  | .settling _ request rest => request :: rest

/-- The requests that a loop has still to call, behind the one whose callback runs. -/
def At.rest : At → List Request
  | .guard caller | .notify_one caller | .unguard caller => caller.rest
  | .loop _ rest => rest
  | _ => []

/-- The call of a thread that may come to sleep before it looks at the promise again, or that
sleeps. -/
def At.sleeps (state : State) : At → Option Call
  | .lock .wait | .testFulfilled | .relock .wait _ => if state = .pending then some .wait else none
  | .testRejected => if state = .rejected then none else some .wait
  | .lock .wait_for => some .wait_for
  | .block call | .blocked call => some call
  | _ => none

theorem At.of_sleeps_wait {state : State} {pos : At} (hp : state ≠ .pending)
    (h : pos.sleeps state = some .wait) : pos.mutex = true ∨ pos = .blocked .wait := by
  unfold At.sleeps at h
  split at h <;> grind [At.mutex]

theorem At.sleeps_of_settled {state : State} {pos : At} (hp : state ≠ .pending)
    (h : pos.sleeps state ≠ none) : pos.sleeps state = pos.sleeps .pending := by
  unfold At.sleeps at h ⊢
  split <;> grind

/-- A request that the barrier has attached and that has not been called. -/
def Uncalled (called : Nat → Branch → Bool) (branch : Branch) (rest : List Request) (n : Nat) :
    Prop :=
  ∃ request ∈ rest, request.notifies = true ∧ request.number = n ∧ called n branch = false

def Caller.later (called : Nat → Branch → Bool) (n : Nat) : Caller → Prop
  | .attaching .. => False
  | .settling branch _ rest => Uncalled called branch rest n

def Caller.due (called : Nat → Branch → Bool) (n : Nat) : Caller → Prop
  | .attaching .. => False
  | .settling branch request rest => request.number = n ∨ Uncalled called branch rest n

/-- The notifications that a loop has still to make. -/
def At.due (called : Nat → Branch → Bool) (n : Nat) : At → Prop
  | .guard caller | .notify_one caller => caller.due called n
  | .unguard caller => caller.later called n
  | .loop branch rest => Uncalled called branch rest n
  | _ => False

theorem At.core_of_due {called : Nat → Branch → Bool} {n : Nat} {pos : At}
    (h : pos.due called n) : pos.core = true := by
  unfold At.due at h
  split at h <;> first | rfl | cases h

namespace Waits

variable {s s' : Waits}

/-! ## The mutexes -/

/-- Who has the mutexes, and who sleeps. -/
structure Locks (s : Waits) : Prop where
  core : ∀ t, s.coreMtx = some t ↔ (s.pos t).core = true
  mutex : ∀ t, s.mtx = some t ↔ (s.pos t).mutex = true
  cv : ∀ t, t ∈ s.cv ↔ ∃ call, s.pos t = .blocked call
  nodup : s.cv.Nodup

/-- What `notify_one` does: nothing when nobody sleeps. -/
theorem Locks.notify_one (h : Locks s) (chosen : Nat) :
    s.cv = [] ∧ s.notify_one chosen = s ∨ ∃ u call, s.pos u = .blocked call ∧
      s.notify_one chosen = { s with cv := s.cv.erase u }.move u (.relock call .no_timeout) := by
  unfold Waits.notify_one
  split
  case h_1 hnone =>
    left
    refine ⟨?_, rfl⟩
    by_contra hne
    have hlt := Nat.mod_lt chosen (List.length_pos_iff.mpr hne)
    rw [List.getElem?_eq_getElem hlt] at hnone
    cases hnone
  case h_2 u hu =>
    obtain ⟨call, hpos⟩ := (h.cv u).mp (List.mem_of_getElem? hu)
    rw [hpos]
    exact .inr ⟨u, call, hpos, rfl⟩

/-- What a thread does with a mutex when it moves: it leaves it alone, takes it or releases it.
`held` and `held'` tell whether it has the mutex before and behind the move. -/
def Hand (t : Thread) (mtx mtx' : Option Thread) (held held' : Bool) : Prop :=
  mtx' = mtx ∧ held' = held ∨ mtx = none ∧ mtx' = some t ∧ held' = true ∨
    held = true ∧ mtx' = none ∧ held' = false

/-- The thread that has the mutex is still the only one that stands behind its lock. -/
theorem Hand.owner (t : Thread) {mtx mtx' : Option Thread} (held held' : Thread → Bool)
    (hand : Hand t mtx mtx' (held t) (held' t)) (h : ∀ u, mtx = some u ↔ held u = true)
    (hother : ∀ u, u ≠ t → held' u = held u) (u : Thread) : mtx' = some u ↔ held' u = true := by
  rcases hand with ⟨rfl, hsame⟩ | ⟨rfl, rfl, htakes⟩ | ⟨hhas, rfl, hgives⟩
  · by_cases hu : u = t
    · rw [hu, hsame]
      exact h t
    · rw [hother u hu]
      exact h u
  · by_cases hu : u = t
    · simp [hu, htakes]
    · have hfree : held u ≠ true := by
        intro hheld
        cases (h u).mpr hheld
      rw [hother u hu]
      exact iff_of_false (fun heq => hu (Option.some.inj heq).symm) hfree
  · by_cases hu : u = t
    · simp [hu, hgives]
    · have hfree : held u ≠ true := by
        intro hheld
        have heq := ((h t).mpr hhas).symm.trans ((h u).mpr hheld)
        exact hu (Option.some.inj heq).symm
      rw [hother u hu]
      exact iff_of_false (fun heq => by cases heq) hfree

/-- One thread moves. -/
theorem Locks.moved (h : Locks s) {t : Thread} {pos : At}
    (hpos : ∀ u, s'.pos u = if u = t then pos else s.pos u)
    (hcore : Hand t s.coreMtx s'.coreMtx (s.pos t).core pos.core)
    (hmutex : Hand t s.mtx s'.mtx (s.pos t).mutex pos.mutex)
    (hcv : ∀ u, u ∈ s'.cv ↔ if u = t then ∃ call, pos = .blocked call else u ∈ s.cv)
    (hnodup : s'.cv.Nodup) : Locks s' := by
  have hself : s'.pos t = pos := by rw [hpos, if_pos rfl]
  have hother : ∀ u, u ≠ t → s'.pos u = s.pos u := fun u hu => by rw [hpos, if_neg hu]
  refine ⟨?_, ?_, fun u => ?_, hnodup⟩
  · refine Hand.owner t (fun u => (s.pos u).core) (fun u => (s'.pos u).core) ?_ h.core fun u hu => ?_
    · rwa [hself]
    · rw [hother u hu]
  · refine Hand.owner t (fun u => (s.pos u).mutex) (fun u => (s'.pos u).mutex) ?_ h.mutex
      fun u hu => ?_
    · rwa [hself]
    · rw [hother u hu]
  · rw [hcv, hpos]
    split
    · exact Iff.rfl
    · exact h.cv u

/-- One thread moves that neither comes from a sleep nor goes to sleep. -/
theorem Locks.stays (h : Locks s) {t : Thread} {pos : At} (hcv : s'.cv = s.cv)
    (hpos : ∀ u, s'.pos u = if u = t then pos else s.pos u)
    (hcore : Hand t s.coreMtx s'.coreMtx (s.pos t).core pos.core)
    (hmutex : Hand t s.mtx s'.mtx (s.pos t).mutex pos.mutex)
    (hfrom : ∀ call, s.pos t ≠ .blocked call) (hto : ∀ call, pos ≠ .blocked call) : Locks s' := by
  refine h.moved hpos hcore hmutex (fun u => ?_) (hcv ▸ h.nodup)
  rw [hcv]
  split
  · rename_i hu
    rw [hu, h.cv]
    exact iff_of_false (fun ⟨call, hc⟩ => hfrom call hc) fun ⟨call, hc⟩ => hto call hc
  · exact Iff.rfl

/-- A sleeper comes to take the mutex again. -/
theorem Locks.risen (h : Locks s) {t : Thread} {call call' : Call} {status : Status}
    (hpos : s.pos t = .blocked call) :
    Locks ({ s with cv := s.cv.erase t }.move t (.relock call' status)) := by
  refine h.moved (move_pos _ t · _) ?_ ?_ (fun u => ?_) (h.nodup.erase t)
  · simp [Hand, hpos, At.core]
  · simp [Hand, hpos, At.mutex]
  · show u ∈ s.cv.erase t ↔ _
    rw [h.nodup.mem_erase_iff]
    by_cases hu : u = t
    · simp [hu]
    · simp [hu]

/-- One thread goes to sleep. -/
theorem Locks.block (h : Locks s) {t : Thread} {call : Call} (hpos : s.pos t = .block call) :
    Locks ({ s with mtx := none, cv := s.cv ++ [t] }.move t (.blocked call)) := by
  have hnot : t ∉ s.cv := by
    rw [h.cv, hpos]
    rintro ⟨call', hc⟩
    cases hc
  refine h.moved (move_pos _ t · _) ?_ ?_ (fun u => ?_) ?_
  · simp [Hand, hpos, At.core]
  · simp [Hand, hpos, At.mutex]
  · show u ∈ s.cv ++ [t] ↔ _
    by_cases hu : u = t
    · simp [hu]
    · simp [hu]
  · show (s.cv ++ [t]).Nodup
    rw [List.nodup_append]
    refine ⟨h.nodup, List.nodup_singleton t, fun u hu v hv => ?_⟩
    rw [List.mem_singleton.mp hv]
    rintro rfl
    exact hnot hu

theorem Locks.go (h : Locks s) (t : Thread) (chosen : Nat) (throws : Bool) :
    Locks (s.go t chosen throws) := by
  unfold Waits.go
  split
  case h_1 | h_14 => exact h
  case h_2 call hpos | h_3 call hpos =>
    split <;> refine h.stays rfl (move_pos _ t · _) ?_ ?_ ?_ ?_ <;>
      simp [Hand, hpos, At.core, At.mutex]
  case h_4 call hpos =>
    split
    · rename_i hfree
      unfold Waits.then_
      dsimp only
      split <;> refine h.stays rfl (move_pos _ t · _) ?_ ?_ ?_ ?_ <;>
        simp [Hand, hpos, hfree, At.core, At.mutex]
    · exact h
  case h_5 caller hpos =>
    split
    · rename_i hfree
      refine h.stays rfl (move_pos _ t · _) ?_ ?_ ?_ ?_ <;>
        simp [Hand, hpos, hfree, At.core, At.mutex]
    · exact h
  case h_6 caller hpos =>
    rcases h.notify_one chosen with ⟨-, hn⟩ | ⟨v, call, hv, hn⟩
    · rw [hn]
      refine h.stays rfl (move_pos _ t · _) ?_ ?_ ?_ ?_ <;>
        simp [Hand, hpos, At.core, At.mutex]
    · have hvt : t ≠ v := by
        rintro rfl
        rw [hpos] at hv
        cases hv
      rw [hn]
      refine (h.risen hv).stays rfl (move_pos _ t · _) ?_ ?_ ?_ ?_ <;>
        simp [Hand, hpos, hvt, At.core, At.mutex]
  case h_10 call hpos | h_15 call status hpos =>
    split
    · rename_i hfree
      refine h.stays rfl (move_pos _ t · _) ?_ ?_ ?_ ?_ <;> cases call <;>
        simp [Hand, hpos, hfree, At.core, At.mutex]
    · exact h
  case h_11 hpos | h_12 hpos =>
    split <;> refine h.stays rfl (move_pos _ t · _) ?_ ?_ ?_ ?_ <;>
      simp [Hand, hpos, At.core, At.mutex]
  case h_13 call hpos => exact h.block hpos
  case h_17 hpos =>
    split
    · rename_i hfree
      unfold Waits.attach
      dsimp only
      split
      · refine h.stays rfl (move_pos _ t · _) ?_ ?_ ?_ ?_ <;>
          simp [Hand, hpos, At.core, At.mutex]
      · split <;> refine h.stays rfl (move_pos _ t · _) ?_ ?_ ?_ ?_ <;>
          simp [Hand, hpos, At.core, At.mutex]
    · exact h
  case h_18 branch hpos =>
    split <;> refine h.stays rfl (move_pos _ t · _) ?_ ?_ ?_ ?_ <;>
      simp [Hand, hpos, At.core, At.mutex]
  case h_19 branch hpos =>
    split
    · rename_i hfree
      refine h.stays rfl (move_pos _ t · _) ?_ ?_ ?_ ?_ <;>
        simp [Hand, hpos, hfree, At.core, At.mutex]
    · exact h
  case h_20 branch rest hpos =>
    unfold Waits.loop
    (repeat' split) <;> refine h.stays rfl (move_pos _ t · _) ?_ ?_ ?_ ?_ <;>
      simp [Hand, hpos, At.core, At.mutex]
  all_goals
    rename_i hpos
    refine h.stays rfl (move_pos _ t · _) ?_ ?_ ?_ ?_ <;> simp [Hand, hpos, At.core, At.mutex]

/-! ## The requests -/

/-- Nothing is called while the promise is Pending, and one call settles it. -/
structure Orders (s : Waits) : Prop where
  uncalled : s.state = .pending → ∀ n branch, s.called n branch = false
  fresh : s.state = .pending → ∀ request ∈ s.requests, request.number < s.next
  nodup : s.state = .pending → (s.requests.map Request.number).Nodup
  core : ∀ t, (s.pos t).core = true → s.state ≠ .pending
  settle : ∀ t branch, s.pos t = .settle branch → s.state = .pending
  one : ∀ t u branch branch', s.pos t = .settle branch → s.pos u = .settle branch' → t = u
  rest : ∀ t, ((s.pos t).rest.map Request.number).Nodup

/-- One thread moves, and a Pending promise stays as it is. -/
theorem Orders.moved (h : Orders s) {t : Thread} {pos : At} (hstate : s'.state = s.state)
    (hsame : s.state = .pending →
      s'.called = s.called ∧ s'.requests = s.requests ∧ s'.next = s.next)
    (hpos : ∀ u, s'.pos u = if u = t then pos else s.pos u)
    (hcore : pos.core = true → s.state ≠ .pending)
    (hsettle : ∀ branch, pos = .settle branch →
      s.state = .pending ∧ ∀ u branch', s.pos u ≠ .settle branch')
    (hrest : (pos.rest.map Request.number).Nodup) : Orders s' where
  uncalled hp := by
    rw [hstate] at hp
    rw [(hsame hp).1]
    exact h.uncalled hp
  fresh hp := by
    rw [hstate] at hp
    obtain ⟨-, hrequests, hnext⟩ := hsame hp
    rw [hrequests, hnext]
    exact h.fresh hp
  nodup hp := by
    rw [hstate] at hp
    rw [(hsame hp).2.1]
    exact h.nodup hp
  core u hu := by
    rw [hpos] at hu
    rw [hstate]
    split at hu
    · exact hcore hu
    · exact h.core u hu
  settle u branch hu := by
    rw [hpos] at hu
    rw [hstate]
    split at hu
    · exact (hsettle branch hu).1
    · exact h.settle u branch hu
  one u v branch branch' hu hv := by
    rw [hpos] at hu hv
    split at hu
    case isTrue hut =>
      split at hv
      case isTrue hvt => rw [hut, hvt]
      case isFalse => exact absurd hv ((hsettle branch hu).2 v branch')
    case isFalse =>
      split at hv
      case isTrue => exact absurd hu ((hsettle branch' hv).2 u branch)
      case isFalse => exact h.one u v branch branch' hu hv
  rest u := by
    rw [hpos]
    split
    · exact hrest
    · exact h.rest u

/-- A Pending promise has one more request, with the next number. -/
theorem Orders.attached (h : Orders s) (hp : s.state = .pending) (t : Thread) (notifies : Bool)
    (pos : At) (hcore : pos.core = false) (hsettle : ∀ branch, pos ≠ .settle branch)
    (hrest : pos.rest = []) :
    Orders ({ s with
      next := s.next + 1
      requests := s.requests ++ [(⟨s.next, notifies⟩ : Request)] }.move t pos) := by
  have hnew : Orders { s with
      next := s.next + 1
      requests := s.requests ++ [(⟨s.next, notifies⟩ : Request)] } := by
    refine ⟨h.uncalled, fun _ request hr => ?_, fun _ => ?_, h.core, h.settle, h.one, h.rest⟩
    · show request.number < s.next + 1
      rcases List.mem_append.mp hr with hr | hr
      · have := h.fresh hp request hr
        omega
      · rw [List.mem_singleton.mp hr]
        exact Nat.lt_succ_self s.next
    · show ((s.requests ++ [(⟨s.next, notifies⟩ : Request)]).map Request.number).Nodup
      rw [List.map_append, List.nodup_append]
      refine ⟨h.nodup hp, List.nodup_singleton _, fun n hn m hm => ?_⟩
      obtain ⟨request, hr, rfl⟩ := List.mem_map.mp hn
      rw [List.map_singleton, List.mem_singleton] at hm
      have := h.fresh hp request hr
      rw [hm]
      show request.number ≠ s.next
      omega
  refine hnew.moved rfl (fun _ => ⟨rfl, rfl, rfl⟩) (move_pos _ t · _) ?_ ?_ ?_
  · simp [hcore]
  · exact fun branch hb => absurd hb (hsettle branch)
  · simp [hrest]

/-- The promise is settled. -/
theorem Orders.settles (h : Orders s) {t : Thread} {branch : Branch}
    (hpos : s.pos t = .settle branch) :
    Orders ({ s with coreMtx := some t, state := Branch.state branch }.move t
      (.loop branch s.requests)) := by
  have hp := h.settle t branch hpos
  have hne := state_ne_pending branch
  refine ⟨fun hp' => absurd hp' hne, fun hp' => absurd hp' hne, fun hp' => absurd hp' hne,
    fun _ _ => hne, fun u branch' hu => ?_, fun u v branch₁ branch₂ hu hv => ?_, fun u => ?_⟩
  · -- the thread that settles is the only one that was about to
    rw [move_pos] at hu
    split at hu
    · cases hu
    · exact absurd (h.one u t branch' branch hu hpos) ‹_›
  · rw [move_pos] at hu
    split at hu
    · cases hu
    · exact absurd (h.one u t branch₁ branch hu hpos) ‹_›
  · rw [move_pos]
    split
    · exact h.nodup hp
    · exact h.rest u

theorem Orders.go (h : Orders s) (hl : Locks s) (t : Thread) (chosen : Nat) (throws : Bool)
    (hsound : s.Sound (.go t chosen throws)) : Orders (s.go t chosen throws) := by
  obtain ⟨-, hone⟩ := hsound
  have hcore := h.core t
  have hrest := h.rest t
  unfold Waits.go
  split
  case h_1 | h_14 => exact h
  case h_4 call hpos =>
    split
    · unfold Waits.then_
      dsimp only
      split
      case h_1 hnone =>
        refine h.attached (branch_eq_none.mp hnone) t true (.lock call) rfl (fun _ hb => ?_) rfl
        cases hb
      case h_2 branch hsome =>
        have hp := ne_pending_of_branch hsome
        refine h.moved rfl (fun hp' => absurd hp' hp) (move_pos _ t · _) (fun _ => hp) ?_ ?_ <;>
          simp [At.rest, Caller.rest]
    · exact h
  case h_5 caller hpos =>
    rw [hpos] at hcore hrest
    split
    · refine h.moved rfl (fun _ => ⟨rfl, rfl, rfl⟩) (move_pos _ t · _) (fun _ => hcore rfl) ?_ hrest
      simp
    · exact h
  case h_6 caller hpos =>
    rw [hpos] at hcore hrest
    rcases hl.notify_one chosen with ⟨-, hn⟩ | ⟨v, call, hv, hn⟩
    · rw [hn]
      refine h.moved rfl (fun _ => ⟨rfl, rfl, rfl⟩) (move_pos _ t · _) (fun _ => hcore rfl) ?_ hrest
      simp
    · have hrisen : Orders ({ s with cv := s.cv.erase v }.move v (.relock call .no_timeout)) := by
        refine h.moved rfl (fun _ => ⟨rfl, rfl, rfl⟩) (move_pos _ v · _) ?_ ?_ ?_ <;>
          simp [At.core, At.rest]
      rw [hn]
      refine hrisen.moved rfl (fun _ => ⟨rfl, rfl, rfl⟩) (move_pos _ t · _) (fun _ => hcore rfl) ?_
        hrest
      simp
  case h_8 branch request rest hpos =>
    rw [hpos] at hcore hrest
    refine h.moved rfl (fun _ => ⟨rfl, rfl, rfl⟩) (move_pos _ t · _) (fun _ => hcore rfl) ?_ ?_
    · simp
    · exact (List.nodup_cons.mp hrest).2
  case h_9 call request hpos =>
    rw [hpos] at hcore
    refine h.moved rfl (fun hp => absurd hp (hcore rfl)) (move_pos _ t · _) ?_ ?_ ?_ <;>
      simp [At.core, At.rest]
  case h_7 call request hpos =>
    rw [hpos] at hcore
    refine h.moved rfl (fun _ => ⟨rfl, rfl, rfl⟩) (move_pos _ t · _) (fun _ => hcore rfl) ?_ ?_ <;>
      simp [At.rest]
  case h_10 call hpos | h_15 call status hpos =>
    split
    · refine h.moved rfl (fun _ => ⟨rfl, rfl, rfl⟩) (move_pos _ t · _) ?_ ?_ ?_ <;> cases call <;>
        simp [At.core, At.rest]
    · exact h
  case h_11 hpos | h_12 hpos =>
    split <;> refine h.moved rfl (fun _ => ⟨rfl, rfl, rfl⟩) (move_pos _ t · _) ?_ ?_ ?_ <;>
      simp [At.core, At.rest]
  case h_17 hpos =>
    split
    · unfold Waits.attach
      dsimp only
      split
      case h_1 hnone =>
        refine h.attached (branch_eq_none.mp hnone) t false .out rfl (fun _ hb => ?_) rfl
        cases hb
      case h_2 branch hsome =>
        have hp := ne_pending_of_branch hsome
        split <;> refine h.moved rfl (fun hp' => absurd hp' hp) (move_pos _ t · _) ?_ ?_ ?_ <;>
          simp [At.core, At.rest]
    · exact h
  case h_18 branch hpos =>
    split
    case isTrue hp =>
      refine h.moved rfl (fun _ => ⟨rfl, rfl, rfl⟩) (move_pos _ t · _) ?_
        (fun _ _ => ⟨hp, hone branch hpos⟩) ?_ <;> simp [At.core, At.rest]
    case isFalse =>
      refine h.moved rfl (fun _ => ⟨rfl, rfl, rfl⟩) (move_pos _ t · _) ?_ ?_ ?_ <;>
        simp [At.core, At.rest]
  case h_19 branch hpos =>
    split
    · exact h.settles hpos
    · exact h
  case h_20 branch rest hpos =>
    rw [hpos] at hcore hrest
    have hp : s.state ≠ .pending := hcore rfl
    unfold Waits.loop
    split
    case h_1 =>
      refine h.moved rfl (fun hp' => absurd hp' hp) (move_pos _ t · _) ?_ ?_ ?_ <;>
        simp [At.core, At.rest]
    case h_2 request rest =>
      have htail : (rest.map Request.number).Nodup := (List.nodup_cons.mp hrest).2
      (repeat' split) <;>
        refine h.moved rfl (fun hp' => absurd hp' hp) (move_pos _ t · _) (fun _ => hp) ?_ ?_ <;>
          first | exact hrest | exact htail | simp [At.rest]
  all_goals
    (try split) <;> refine h.moved rfl (fun _ => ⟨rfl, rfl, rfl⟩) (move_pos _ t · _) ?_ ?_ ?_ <;>
      simp [At.core, At.rest]

/-! ## The notifications -/

/-- A notification is on its way. -/
def Due (s : Waits) (n : Nat) : Prop :=
  match s.state with
  | .pending => ∃ request ∈ s.requests, request.notifies = true ∧ request.number = n
  | _ => ∃ t, (s.pos t).due s.called n

theorem due_pending (h : s.state = .pending) (n : Nat) :
    s.Due n ↔ ∃ request ∈ s.requests, request.notifies = true ∧ request.number = n := by
  unfold Due
  rw [h]

theorem due_settled (h : s.state ≠ .pending) (n : Nat) :
    s.Due n ↔ ∃ t, (s.pos t).due s.called n := by
  unfold Due
  split
  · contradiction
  · rfl

/-- The call for which a thread may be asleep. -/
def sleeps (s : Waits) (t : Thread) : Option Call := (s.pos t).sleeps s.state

/-- Every thread that may come to sleep has its notification, or the promise is settled and no
`wait` is among these threads. -/
def Covered (s : Waits) : Prop :=
  (s.state ≠ .pending ∧ ∀ t, s.sleeps t ≠ some .wait) ∨
    ∃ f : Thread → Nat, ∀ t, s.sleeps t ≠ none →
      s.Due (f t) ∧ ∀ u, s.sleeps u ≠ none → f u = f t → u = t

/-- Only a loop, with the lock of the core, notifies. -/
theorem Locks.not_due (hl : Locks s) (hp : s.state ≠ .pending)
    (hcore : ∀ t, s.coreMtx = some t → ∀ n, ¬(s.pos t).due s.called n) (n : Nat) : ¬s.Due n := by
  intro hd
  obtain ⟨u, hu⟩ := (due_settled hp n).mp hd
  exact hcore u ((hl.core u).mpr (At.core_of_due hu)) n hu

/-- Who is woken looks at the promise before it sleeps again. -/
theorem Locks.sleeps_notify_one (hl : Locks s) (hp : s.state ≠ .pending) (chosen : Nat)
    (t : Thread) (caller : Caller) (u : Thread)
    (hu : ((s.notify_one chosen).move t (.unguard caller)).sleeps u ≠ none) :
    ((s.notify_one chosen).move t (.unguard caller)).sleeps u = s.sleeps u := by
  rcases hl.notify_one chosen with ⟨-, hn⟩ | ⟨v, call, hv, hn⟩ <;> rw [hn] at hu ⊢ <;>
    unfold sleeps at * <;> simp only [move_pos, move_state] at *
  · split at hu
    · exact absurd rfl hu
    · rw [if_neg ‹_›]
  · have hrelock : (At.relock call .no_timeout).sleeps s.state = none := by
      cases call <;> simp [At.sleeps, hp]
    split at hu
    · exact absurd rfl hu
    · rw [if_neg ‹_›]
      split at hu
      · exact absurd hrelock hu
      · rw [if_neg ‹_›]

namespace Covered

/-- No thread comes to the ones that may sleep, and no notification is lost. -/
theorem mono (h : Covered s) (hstate : s.state ≠ .pending → s'.state ≠ .pending)
    (hsleeps : ∀ t, s'.sleeps t ≠ none → s'.sleeps t = s.sleeps t)
    (hdue : ∀ n, s.Due n → s'.Due n) : Covered s' := by
  rcases h with ⟨hp, hno⟩ | ⟨f, hf⟩
  · refine .inl ⟨hstate hp, fun t ht => ?_⟩
    rw [hsleeps t (by rw [ht]; exact Option.some_ne_none _)] at ht
    exact hno t ht
  · refine .inr ⟨f, fun t ht => ?_⟩
    have hs := hsleeps t ht
    obtain ⟨hd, hinj⟩ := hf t (hs ▸ ht)
    exact ⟨hdue _ hd, fun u hu => hinj u (hsleeps u hu ▸ hu)⟩

/-- Without a notification on its way to come no `wait` is asleep. -/
theorem awake (h : Covered s) (hdue : ∀ n, ¬s.Due n) :
    ∀ t, s.sleeps t ≠ some .wait := by
  rcases h with ⟨-, hno⟩ | ⟨f, hf⟩
  · exact hno
  · intro t ht
    exact absurd (hf t (by rw [ht]; exact Option.some_ne_none _)).1 (hdue _)

/-- One thread moves, and what the others may find does not change. -/
theorem moved (h : Covered s) {t : Thread} {pos : At} (hstate : s'.state = s.state)
    (hrequests : ∀ request ∈ s.requests, request ∈ s'.requests) (hcalled : s'.called = s.called)
    (hpos : ∀ u, s'.pos u = if u = t then pos else s.pos u)
    (hsleeps : pos.sleeps s.state ≠ none → pos.sleeps s.state = (s.pos t).sleeps s.state)
    (hdue : ∀ n, (s.pos t).due s.called n → pos.due s.called n) : Covered s' := by
  refine h.mono (fun hp => hstate ▸ hp) (fun u hu => ?_) fun n hn => ?_
  · unfold sleeps at hu ⊢
    rw [hstate, hpos] at *
    grind
  · by_cases hp : s.state = .pending
    · rw [due_pending (hstate.trans hp)]
      obtain ⟨request, hmem, hr⟩ := (due_pending hp n).mp hn
      exact ⟨request, hrequests request hmem, hr⟩
    · rw [due_settled (hstate ▸ hp), hcalled]
      obtain ⟨u, hu⟩ := (due_settled hp n).mp hn
      refine ⟨u, ?_⟩
      rw [hpos]
      grind

/-- A thread attaches its request to a Pending promise. -/
theorem attached (h : Covered s) (ho : Orders s) (hp : s.state = .pending) {t : Thread}
    {pos : At} (hstate : s'.state = s.state)
    (hrequests : s'.requests = s.requests ++ [⟨s.next, true⟩])
    (hpos : ∀ u, s'.pos u = if u = t then pos else s.pos u) : Covered s' := by
  rcases h with ⟨hne, -⟩ | ⟨f, hf⟩
  · exact absurd hp hne
  · have hold : ∀ u, u ≠ t → s'.sleeps u ≠ none → s.sleeps u ≠ none := by
      intro u hu hs
      unfold sleeps at *
      rwa [hpos, if_neg hu, hstate] at hs
    have hlt : ∀ u, s.sleeps u ≠ none → f u < s.next := by
      intro u hu
      obtain ⟨request, hmem, -, hn⟩ := (due_pending hp _).mp (hf u hu).1
      exact hn ▸ ho.fresh hp request hmem
    refine .inr ⟨fun u => if u = t then s.next else f u, fun u hu => ⟨?_, fun v hv => ?_⟩⟩
    · rw [due_pending (hstate.trans hp), hrequests]
      dsimp only
      split
      · exact ⟨⟨s.next, true⟩, List.mem_append_right _ List.mem_cons_self, rfl, rfl⟩
      · obtain ⟨request, hmem, hr⟩ := (due_pending hp _).mp (hf u (hold u ‹_› hu)).1
        exact ⟨request, List.mem_append_left _ hmem, hr⟩
    · have := hold u
      have := hold v
      have := hf u
      have := hlt u
      have := hlt v
      grind

/-- `notify_one` in the loop over the requests. -/
theorem notified (h : Covered s) (hl : Locks s) (ho : Orders s) (chosen : Nat) {t : Thread}
    {branch : Branch} {request : Request} {rest : List Request}
    (hpos : s.pos t = .notify_one (.settling branch request rest)) :
    Covered ((s.notify_one chosen).move t (.unguard (.settling branch request rest))) := by
  have hp : s.state ≠ .pending := ho.core t (by rw [hpos]; rfl)
  have hmutex : s.mtx = some t := (hl.mutex t).mpr (by rw [hpos]; rfl)
  have hcore : s.coreMtx = some t := (hl.core t).mpr (by rw [hpos]; rfl)
  rcases hl.notify_one chosen with ⟨hcv, hn⟩ | ⟨v, call, hv, hn⟩
  · -- nobody sleeps, and who is about to would hold the mutex
    rw [hn]
    refine .inl ⟨hp, fun u hu => ?_⟩
    unfold sleeps at hu
    rw [move_pos, move_state] at hu
    split at hu
    · cases hu
    · have := hl.mutex u
      have := hl.cv u
      have := At.of_sleeps_wait hp hu
      grind
  · rw [hn]
    have hvt : v ≠ t := by
      rintro rfl
      rw [hpos] at hv
      cases hv
    generalize hs' : ({ s with cv := s.cv.erase v }.move v (.relock call .no_timeout)).move t
      (.unguard (.settling branch request rest)) = s'
    have hstate : s'.state = s.state := hs' ▸ rfl
    have hcalled : s'.called = s.called := hs' ▸ rfl
    have hpos' : ∀ u, s'.pos u = if u = t then .unguard (.settling branch request rest) else
        if u = v then .relock call .no_timeout else s.pos u := by
      intro u
      simp [← hs']
    have hsleeps : ∀ u, s'.sleeps u ≠ none → u ≠ v ∧ s'.sleeps u = s.sleeps u := by
      intro u hu
      have hall := hl.sleeps_notify_one hp chosen t (.settling branch request rest) u
      rw [hn, hs'] at hall
      refine ⟨?_, hall hu⟩
      rintro rfl
      unfold sleeps at hu
      rw [hpos', if_neg hvt, if_pos rfl, hstate] at hu
      cases call <;> simp [At.sleeps, hp] at hu
    -- the notifications but the one that has been made
    have hdue : ∀ n, s.Due n → n ≠ request.number → s'.Due n := by
      intro n hd hne
      obtain ⟨u, hu⟩ := (due_settled hp n).mp hd
      have hut : u = t := by
        have := (hl.core u).mpr (At.core_of_due hu)
        grind
      subst hut
      rw [hpos] at hu
      rw [due_settled (hstate ▸ hp), hcalled]
      refine ⟨u, ?_⟩
      rw [hpos', if_pos rfl]
      exact hu.resolve_left fun heq => hne heq.symm
    rcases h with ⟨-, hno⟩ | ⟨f, hf⟩
    · refine .inl ⟨hstate ▸ hp, fun u hu => hno u ?_⟩
      rw [← (hsleeps u (by rw [hu]; exact Option.some_ne_none _)).2, hu]
    · have hfv := hf v (by unfold sleeps; rw [hv]; exact Option.some_ne_none _)
      refine .inr ⟨fun u => if f u = request.number then f v else f u, fun u hu => ?_⟩
      obtain ⟨huv, hs⟩ := hsleeps u hu
      obtain ⟨hfu, hinj⟩ := hf u (hs ▸ hu)
      refine ⟨?_, fun w hw heq => ?_⟩
      · have := hfv.2 u (hs ▸ hu)
        dsimp only
        split
        · exact hdue _ hfv.1 (by grind)
        · exact hdue _ hfu ‹_›
      · obtain ⟨hwv, hws⟩ := hsleeps w hw
        have := hinj w (hws ▸ hw)
        have := hfv.2 u (hs ▸ hu)
        have := hfv.2 w (hws ▸ hw)
        grind

/-- Without a notification to come, who moves may come to sleep in a `wait_for`. -/
theorem settled (h : Covered s) (hp : s.state ≠ .pending) (hdue : ∀ n, ¬s.Due n) {t : Thread}
    {pos : At} (hstate : s'.state = s.state)
    (hpos : ∀ u, s'.pos u = if u = t then pos else s.pos u)
    (hsleeps : pos.sleeps s.state ≠ some .wait) : Covered s' := by
  refine .inl ⟨hstate ▸ hp, fun u => ?_⟩
  have := h.awake hdue u
  unfold sleeps at *
  rw [hpos, hstate]
  split
  · exact hsleeps
  · exact this

/-- The settlement: the requests that the core holds become those that the loop has to call. -/
theorem settles (h : Covered s) (ho : Orders s) (hp : s.state = .pending) (t : Thread)
    (branch : Branch) :
    Covered ({ s with coreMtx := some t, state := Branch.state branch }.move t
      (.loop branch s.requests)) := by
  have hp' := state_ne_pending branch
  refine h.mono (fun hne => absurd hp hne) (fun u hu => ?_) fun n hn => ?_
  · unfold sleeps at *
    simp only [move_pos, move_state] at *
    split at hu
    · exact absurd rfl hu
    · rw [if_neg ‹_›, hp]
      exact At.sleeps_of_settled hp' hu
  · obtain ⟨request, hmem, hr, rfl⟩ := (due_pending hp n).mp hn
    have hsettled : ({ s with coreMtx := some t, state := Branch.state branch }.move t
      (.loop branch s.requests)).state ≠ .pending := hp'
    rw [due_settled hsettled]
    refine ⟨t, ?_⟩
    rw [move_pos, if_pos rfl]
    exact ⟨request, hmem, hr, rfl, ho.uncalled hp _ _⟩

/-- A round of the loop. -/
theorem loop (h : Covered s) (hl : Locks s) (ho : Orders s) {t : Thread} {branch : Branch}
    {rest : List Request} (hpos : s.pos t = .loop branch rest) :
    Covered (s.loop t branch false rest) := by
  have hp : s.state ≠ .pending := ho.core t (by rw [hpos]; rfl)
  have hnodup := ho.rest t
  rw [hpos] at hnodup
  -- a request is called, which is none of those behind it
  have hcalled : ∀ request rest', rest = request :: rest' → ∀ n,
      Uncalled s.called branch rest n → request.number = n ∧ request.notifies = true ∨
        Uncalled (s.call request branch).called branch rest' n := by
    rintro request rest' rfl n ⟨other, hmem, hn, rfl, hno⟩
    have hne := (List.nodup_cons.mp hnodup).1
    rcases List.mem_cons.mp hmem with rfl | hmem
    · exact .inl ⟨rfl, hn⟩
    · refine .inr ⟨other, hmem, hn, rfl, ?_⟩
      have hnumber : other.number ≠ request.number := by
        intro heq
        exact hne (heq ▸ List.mem_map_of_mem hmem)
      rw [call_called, if_neg fun heq => hnumber heq.1]
      exact hno
  have hmoved : ∀ request rest' pos, rest = request :: rest' → pos.sleeps s.state = none →
      (∀ n, (request.number = n ∧ request.notifies = true ∨
        Uncalled (s.call request branch).called branch rest' n) →
          pos.due (s.call request branch).called n) →
      Covered ((s.call request branch).move t pos) := by
    intro request rest' pos hrest hsleeps hdue
    refine h.mono id (fun u hu => ?_) fun n hn => ?_
    · unfold sleeps at *
      grind
    · obtain ⟨u, hu⟩ := (due_settled hp n).mp hn
      have hut : u = t := by
        have := (hl.core u).mpr (At.core_of_due hu)
        have := (hl.core t).mpr (by rw [hpos]; rfl)
        grind
      subst hut
      rw [hpos] at hu
      have hp' : ((s.call request branch).move u pos).state ≠ .pending := hp
      rw [due_settled hp']
      refine ⟨u, ?_⟩
      rw [move_pos, if_pos rfl]
      exact hdue n (hcalled request rest' hrest n hu)
  unfold Waits.loop
  split
  case h_1 =>
    refine h.moved rfl (fun _ => id) rfl (move_pos _ t · _) ?_ ?_ <;>
      simp [hpos, At.sleeps, At.due, Uncalled]
  case h_2 request rest =>
    split
    case isTrue hdone =>
      refine h.moved rfl (fun _ => id) rfl (move_pos _ t · _) ?_ ?_
      · simp [At.sleeps]
      · rw [hpos]
        unfold At.due Uncalled
        grind
    case isFalse =>
      split
      case isTrue =>
        refine hmoved request rest _ rfl rfl fun n hn => ?_
        exact hn.imp_left And.left
      case isFalse hother =>
        refine hmoved request rest _ rfl rfl fun n hn => ?_
        exact hn.resolve_left fun heq => hother heq.2

theorem go (h : Covered s) (hl : Locks s) (ho : Orders s) (t : Thread) (chosen : Nat) :
    Covered (s.go t chosen false) := by
  have hcore : (s.pos t).core = true → s.coreMtx = some t := (hl.core t).mpr
  unfold Waits.go
  split
  case h_1 | h_14 => exact h
  case h_2 call hpos | h_3 call hpos =>
    split <;> refine h.moved rfl (fun _ => id) rfl (move_pos _ t · _) ?_ ?_ <;>
      simp [hpos, At.sleeps, At.due]
  case h_4 call hpos =>
    split
    case isFalse => exact h
    case isTrue hfree =>
      unfold Waits.then_
      dsimp only
      split
      case h_1 hnone => exact h.attached ho (branch_eq_none.mp hnone) rfl rfl (move_pos _ t · _)
      case h_2 branch hsome =>
        have hp := ne_pending_of_branch hsome
        have hdue := hl.not_due hp fun u hu => by rw [hfree] at hu; cases hu
        exact h.settled hp hdue rfl (move_pos _ t · _) (by simp [At.sleeps])
  case h_5 caller hpos =>
    split
    · refine h.moved rfl (fun _ => id) rfl (move_pos _ t · _) ?_ ?_ <;>
        simp [hpos, At.sleeps, At.due]
    · exact h
  case h_6 caller hpos =>
    cases caller with
    | attaching call request =>
      have hp : s.state ≠ .pending := ho.core t (by rw [hpos]; rfl)
      have hdue := hl.not_due hp fun u hu => by
        rw [hcore (by rw [hpos]; rfl), Option.some.injEq] at hu
        rw [← hu, hpos]
        exact fun _ => id
      refine h.mono ?_ (fun u hu => ?_) fun n hn => absurd hn (hdue n)
      · rcases hl.notify_one chosen with ⟨-, hn⟩ | ⟨v, call', hv, hn⟩ <;> rw [hn] <;> exact id
      · exact hl.sleeps_notify_one hp chosen t _ u hu
    | settling branch request rest => exact h.notified hl ho chosen hpos
  case h_7 call request hpos | h_16 call status hpos =>
    refine h.moved rfl (fun _ => id) rfl (move_pos _ t · _) ?_ ?_ <;>
      simp [hpos, At.sleeps, At.due, Caller.later]
  case h_8 branch request rest hpos =>
    refine h.moved rfl (fun _ => id) rfl (move_pos _ t · _) ?_ ?_ <;>
      simp [hpos, At.sleeps, At.due, Caller.later]
  case h_9 call request hpos =>
    have hp : s.state ≠ .pending := ho.core t (by rw [hpos]; rfl)
    have hdue := hl.not_due hp fun u hu => by
      rw [hcore (by rw [hpos]; rfl), Option.some.injEq] at hu
      rw [← hu, hpos]
      exact fun _ => id
    refine h.settled hp hdue rfl (move_pos _ t · _) ?_
    cases call <;> simp [At.sleeps, hp]
  case h_10 call hpos | h_15 call status hpos =>
    split
    · refine h.moved rfl (fun _ => id) rfl (move_pos _ t · _) ?_ ?_ <;> cases call <;>
        simp [hpos, At.sleeps, At.due]
    · exact h
  case h_11 hpos =>
    refine h.moved rfl (fun _ => id) rfl (move_pos _ t · _) ?_ ?_ <;> rw [hpos] <;>
      cases hs : s.state <;> simp [At.sleeps, At.due]
  case h_12 hpos =>
    refine h.moved rfl (fun _ => id) rfl (move_pos _ t · _) ?_ ?_ <;> rw [hpos] <;>
      cases hs : s.state <;> simp [At.sleeps, At.due]
  case h_13 call hpos =>
    refine h.moved rfl (fun _ => id) rfl (move_pos _ t · _) ?_ ?_ <;> simp [hpos, At.sleeps, At.due]
  case h_17 hpos =>
    split
    case isFalse => exact h
    case isTrue hfree =>
      unfold Waits.attach
      dsimp only
      split
      case h_1 hnone =>
        refine h.moved rfl (fun _ => List.mem_append_left _) rfl (move_pos _ t · _) ?_ ?_ <;>
          simp [hpos, At.sleeps, At.due]
      case h_2 branch hsome =>
        have hp := ne_pending_of_branch hsome
        have hdue := hl.not_due hp fun u hu => by rw [hfree] at hu; cases hu
        exact h.settled hp hdue rfl (move_pos _ t · _) (by simp [At.sleeps])
  case h_18 branch hpos =>
    refine h.moved rfl (fun _ => id) rfl (move_pos _ t · _) ?_ ?_ <;> rw [hpos] <;> split <;>
      simp [At.sleeps, At.due]
  case h_19 branch hpos =>
    split
    case isFalse => exact h
    case isTrue => exact h.settles ho (ho.settle t branch hpos) t branch
  case h_20 branch rest hpos => exact h.loop hl ho hpos

end Covered

/-! ## The end of a sleep -/

theorem Orders.risen (h : Orders s) {t : Thread} {pos : At} {cv : List Thread}
    (hcore : pos.core = false) (hsettle : ∀ branch, pos ≠ .settle branch) (hrest : pos.rest = []) :
    Orders ({ s with cv := cv }.move t pos) := by
  refine h.moved rfl (fun _ => ⟨rfl, rfl, rfl⟩) (move_pos _ t · _) ?_ ?_ ?_
  · simp [hcore]
  · exact fun branch hb => absurd hb (hsettle branch)
  · simp [hrest]

end Waits

end Pistache.Async.Barrier
