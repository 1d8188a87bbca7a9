import Pistache.Async.Core
import Mathlib.Data.List.Nodup

/-!
# The order of continuations

What holds of one core while its continuations run: those that have run are the first of those
attached, and the loops under way will call the others in the order of attachment.  `queue` is
the list of the requests that these loops have still to call.

* `Core.Ordered` — the invariant of one core and its queue.
* One lemma for each thing that happens to a core: a `then` before and after the settlement, the
  settlement, a call of the loop, the `push_back`, and an exception.
-/

set_option autoImplicit false

namespace Pistache.Async

variable {V E : Type}

namespace Core

variable {core : Core V E}

/-- One of the functions of the continuation has been called. -/
def started (core : Core V E) (r : Request V E) : Prop := r.number ∈ core.ran.map Prod.fst

instance (core : Core V E) (r : Request V E) : Decidable (core.started r) :=
  inferInstanceAs (Decidable (r.number ∈ core.ran.map Prod.fst))

/-- The requests that have not been called, of a list of them. -/
def fresh (core : Core V E) (l : List (Request V E)) : List (Request V E) :=
  l.filter fun r => ¬ core.started r

/-- The continuations that have not run. -/
def waiting (core : Core V E) : List (Request V E) := core.fresh core.attached

@[simp] theorem fresh_nil : core.fresh [] = [] := rfl

@[simp] theorem fresh_append (l l' : List (Request V E)) :
    core.fresh (l ++ l') = core.fresh l ++ core.fresh l' :=
  List.filter_append _ _

theorem fresh_cons_started {r : Request V E} (h : core.started r) (l : List (Request V E)) :
    core.fresh (r :: l) = core.fresh l :=
  List.filter_cons_of_neg (by simpa using h)

theorem fresh_cons_waits {r : Request V E} (h : ¬ core.started r) (l : List (Request V E)) :
    core.fresh (r :: l) = r :: core.fresh l :=
  List.filter_cons_of_pos (by simpa using h)

theorem mem_fresh {r : Request V E} {l : List (Request V E)} :
    r ∈ core.fresh l ↔ r ∈ l ∧ ¬ core.started r := by
  simp [fresh]

theorem fresh_eq_nil {l : List (Request V E)} :
    core.fresh l = [] ↔ ∀ r ∈ l, core.started r := by
  simp [fresh, List.filter_eq_nil_iff]

/-- The core after its continuation has been called. -/
def call (core : Core V E) (b : Branch) (r : Request V E) : Core V E :=
  { core with ran := core.ran ++ [(r.number, b)] }

theorem started_call {b : Branch} {r r' : Request V E} :
    (core.call b r).started r' ↔ core.started r' ∨ r'.number = r.number := by
  simp only [started, call, List.map_append, List.mem_append, List.map_cons, List.map_nil,
    List.mem_singleton]

theorem fresh_call {b : Branch} {r : Request V E} (l : List (Request V E)) :
    (core.call b r).fresh l = (core.fresh l).filter fun r' => r'.number ≠ r.number := by
  rw [fresh, fresh, List.filter_filter]
  refine List.filter_congr fun r' _ => ?_
  by_cases h : core.started r' <;> by_cases h' : r'.number = r.number <;>
    simp [started_call, h, h']

theorem count_pos_iff {b : Branch} {r : Request V E} :
    1 ≤ core.count b r ↔ (r.number, b) ∈ core.ran :=
  List.count_pos_iff

/-- The invariant of one core. -/
structure Ordered (core : Core V E) (queue : List (Request V E)) : Prop where
  within : ∀ r ∈ core.requests, r ∈ core.attached
  kept : core.fresh core.requests = core.waiting
  nodup : (core.attached.map Request.number).Nodup
  unsettled : core.state = .pending → core.ran = []
  log : ∀ b, core.state.branch = some b →
    core.attached.map (fun r => (r.number, b)) =
      core.ran ++ core.waiting.map fun r => (r.number, b)
  queued : ∀ b, core.state.branch = some b → core.waiting <+: core.fresh queue

namespace Ordered

variable {queue : List (Request V E)}

theorem numbers (h : core.Ordered queue) {r r' : Request V E} (hr : r ∈ core.attached)
    (hr' : r' ∈ core.attached) (heq : r.number = r'.number) : r = r' :=
  List.inj_on_of_nodup_map h.nodup hr hr' heq

theorem fresh_of_pending (h : core.Ordered queue) (hstate : core.state = .pending)
    (l : List (Request V E)) : core.fresh l = l := by
  refine List.filter_eq_self.mpr fun r _ => ?_
  simp [started, h.unsettled hstate]

/-- Before the settlement the vector has every continuation. -/
theorem requests_eq (h : core.Ordered queue) (hstate : core.state = .pending) :
    core.requests = core.attached := by
  have hkept := h.kept
  rwa [waiting, h.fresh_of_pending hstate, h.fresh_of_pending hstate] at hkept

/-- The branch of every call is that of the state. -/
theorem branch_of_ran (h : core.Ordered queue) {n : Nat} {b b' : Branch}
    (hstate : core.state.branch = some b) (hran : (n, b') ∈ core.ran) : b' = b := by
  have hmem : (n, b') ∈ core.attached.map fun r => (r.number, b) := by
    rw [h.log b hstate]
    exact List.mem_append_left _ hran
  obtain ⟨_, _, heq⟩ := List.mem_map.mp hmem
  exact (congrArg Prod.snd heq).symm

/-- The guard of a request lets its first call through, and no other. -/
theorem count_iff (h : core.Ordered queue) {b : Branch} (hstate : core.state.branch = some b)
    (r : Request V E) : 1 ≤ core.count b r ↔ core.started r := by
  rw [count_pos_iff]
  constructor
  · intro hran
    exact List.mem_map.mpr ⟨_, hran, rfl⟩
  · intro hstarted
    obtain ⟨⟨n, b'⟩, hran, rfl⟩ := List.mem_map.mp hstarted
    exact h.branch_of_ran hstate hran ▸ hran

theorem nodup_append (h : core.Ordered queue) {r : Request V E}
    (hr : ∀ r' ∈ core.attached, r'.number ≠ r.number) :
    ((core.attached ++ [r]).map Request.number).Nodup := by
  rw [List.map_append, List.nodup_append]
  refine ⟨h.nodup, List.nodup_singleton _, fun n hn m hm => ?_⟩
  obtain ⟨r', hr', rfl⟩ := List.mem_map.mp hn
  rw [List.map_singleton, List.mem_singleton] at hm
  exact hm ▸ hr r' hr'

/-- A `then` before the settlement. -/
theorem attach_pending (h : core.Ordered queue) (hstate : core.state = .pending)
    {r : Request V E} (hr : ∀ r' ∈ core.attached, r'.number ≠ r.number) :
    Ordered { core with attached := core.attached ++ [r], requests := core.requests ++ [r] }
      queue where
  within r' hr' := by
    rcases List.mem_append.mp hr' with hr' | hr'
    · exact List.mem_append_left _ (h.within r' hr')
    · exact List.mem_append_right _ hr'
  kept := by
    show core.fresh (core.requests ++ [r]) = core.fresh (core.attached ++ [r])
    rw [h.requests_eq hstate]
  nodup := h.nodup_append hr
  unsettled := h.unsettled
  log b hb := by
    rw [show core.state = .pending from hstate] at hb
    cases hb
  queued b hb := by
    rw [show core.state = .pending from hstate] at hb
    cases hb

/-- A `then` after the settlement, when every continuation has run. -/
theorem attach_settled (h : core.Ordered queue) {b : Branch} (hstate : core.state.branch = some b)
    (hall : core.waiting = []) {r : Request V E} (hr : ∀ r' ∈ core.attached, r'.number ≠ r.number) :
    Ordered (call { core with attached := core.attached ++ [r] } b r) queue := by
  have hwaiting : (call { core with attached := core.attached ++ [r] } b r).waiting = [] := by
    refine fresh_eq_nil.mpr fun r' hr' => started_call.mpr ?_
    rcases List.mem_append.mp hr' with hr' | hr'
    · exact .inl (fresh_eq_nil.mp hall r' hr')
    · exact .inr (by rw [List.mem_singleton.mp hr'])
  refine ⟨fun r' hr' => List.mem_append_left _ (h.within r' hr'), ?_, h.nodup_append hr, ?_, ?_, ?_⟩
  · rw [hwaiting]
    refine fresh_eq_nil.mpr fun r' hr' => started_call.mpr (.inl ?_)
    exact fresh_eq_nil.mp hall r' (h.within r' hr')
  · intro hpending
    rw [show core.state = .pending from hpending] at hstate
    cases hstate
  · intro b' hb'
    have hbb : b' = b := Option.some.inj (hb'.symm.trans hstate)
    have hlog := h.log b hstate
    rw [hall] at hlog
    rw [hwaiting, hbb]
    show (core.attached ++ [r]).map _ = (core.ran ++ [(r.number, b)]) ++ []
    rw [List.map_append, hlog]
    simp
  · intro b' _
    rw [hwaiting]
    exact List.nil_prefix

/-- The settlement: the loop will call what has been attached. -/
theorem settle (h : core.Ordered queue) (hpending : core.state = .pending) {core' : Core V E}
    (hrequests : core'.requests = core.requests) (hattached : core'.attached = core.attached)
    (hran : core'.ran = core.ran) (hstate : core'.state ≠ .pending) :
    core'.Ordered (core.requests ++ queue) := by
  have hnone : core'.ran = [] := hran.trans (h.unsettled hpending)
  have hfresh : ∀ l, core'.fresh l = l := fun l =>
    List.filter_eq_self.mpr fun r _ => by simp [started, hnone]
  have hwaiting : core'.waiting = core'.attached := hfresh _
  refine ⟨?_, ?_, hattached ▸ h.nodup, fun hp => absurd hp hstate, ?_, ?_⟩
  · rw [hrequests, hattached]
    exact h.within
  · rw [hfresh, hwaiting, hrequests, hattached]
    exact h.requests_eq hpending
  · intro b _
    rw [hwaiting, hnone, List.nil_append]
  · intro b _
    rw [hwaiting, hfresh, hattached, h.requests_eq hpending]
    exact List.prefix_append _ _

/-- A call of a loop. -/
theorem call {r : Request V E} (h : core.Ordered (r :: queue)) {b : Branch}
    (hstate : core.state.branch = some b) (hr : r ∈ core.attached) (hwaits : ¬ core.started r) :
    (core.call b r).Ordered queue := by
  have hqueued := h.queued b hstate
  rw [fresh_cons_waits hwaits] at hqueued
  have hmem : r ∈ core.waiting := mem_fresh.mpr ⟨hr, hwaits⟩
  -- the loop is at the first continuation that has not run
  obtain ⟨later, hlater⟩ : ∃ later, core.waiting = r :: later := by
    cases hw : core.waiting with
    | nil => rw [hw] at hmem; cases hmem
    | cons r' later =>
      rw [hw, List.cons_prefix_cons] at hqueued
      exact ⟨later, by rw [hqueued.1]⟩
  have hnodup : (core.waiting.map Request.number).Nodup :=
    h.nodup.sublist (List.filter_sublist.map _)
  rw [hlater, List.map_cons, List.nodup_cons] at hnodup
  have hself : later.filter (fun r' => r'.number ≠ r.number) = later := by
    refine List.filter_eq_self.mpr fun r' hr' => ?_
    have hne : r'.number ≠ r.number := fun heq =>
      hnodup.1 (heq ▸ List.mem_map_of_mem hr')
    simpa using hne
  have hwaiting : (core.call b r).waiting = later := by
    show (core.call b r).fresh core.attached = later
    rw [fresh_call]
    show core.waiting.filter _ = later
    rw [hlater, List.filter_cons_of_neg (by simp), hself]
  refine ⟨h.within, ?_, h.nodup, ?_, ?_, ?_⟩
  · show (core.call b r).fresh core.requests = (core.call b r).fresh core.attached
    rw [fresh_call, fresh_call, h.kept]
    rfl
  · intro hpending
    rw [show core.state = .pending from hpending] at hstate
    cases hstate
  · intro b' hb'
    have hbb : b' = b := Option.some.inj (hb'.symm.trans hstate)
    have hlog := h.log b hstate
    rw [hwaiting, hbb]
    show core.attached.map _ = core.ran ++ [(r.number, b)] ++ _
    rw [hlog, hlater, List.map_cons, List.append_assoc, List.singleton_append]
  · intro b' _
    rw [hlater, List.cons_prefix_cons] at hqueued
    have hfiltered := hqueued.2.filter fun r' => r'.number ≠ r.number
    rwa [hself, ← fresh_call (b := b), ← hwaiting] at hfiltered

/-- The `push_back` after the call. -/
theorem push {r : Request V E} (h : core.Ordered queue) (hr : r ∈ core.attached)
    (hstarted : core.started r) :
    Ordered { core with requests := core.requests ++ [r] } queue :=
  { h with
    within := fun r' hr' => by
      rcases List.mem_append.mp hr' with hr' | hr'
      · exact h.within r' hr'
      · exact List.mem_singleton.mp hr' ▸ hr
    kept := by
      show core.fresh (core.requests ++ [r]) = core.waiting
      rw [fresh_append, fresh_cons_started hstarted, fresh_nil, List.append_nil, h.kept] }

/-- A second loop over the requests changes nothing. -/
theorem again (h : core.Ordered queue) : core.Ordered (core.requests ++ queue) :=
  { h with
    queued := fun b _ => by
      rw [fresh_append, h.kept]
      exact List.prefix_append _ _ }

/-- An exception ends loops that have no continuation left to call. -/
theorem drop {ended : List (Request V E)} (h : core.Ordered (ended ++ queue))
    (hended : ∀ r ∈ ended, core.started r) : core.Ordered queue :=
  { h with
    queued := fun b hb => by
      have hqueued := h.queued b hb
      rwa [fresh_append, fresh_eq_nil.mpr hended, List.nil_append] at hqueued }

/-- What has run is a first part of what was attached, each with the branch of the state. -/
theorem ran_isPrefix (h : core.Ordered queue) {b : Branch} (hstate : core.state.branch = some b) :
    core.ran <+: core.attached.map fun r => (r.number, b) := by
  rw [h.log b hstate]
  exact List.prefix_append _ _

/-- When no loop is under way everything attached has run. -/
theorem ran_all (h : core.Ordered []) {b : Branch} (hstate : core.state.branch = some b) :
    core.ran = core.attached.map fun r => (r.number, b) := by
  have hwaiting : core.waiting = [] := List.prefix_nil.mp (h.queued b hstate)
  have hlog := h.log b hstate
  rw [hwaiting, List.map_nil, List.append_nil] at hlog
  exact hlog.symm

end Ordered

end Core

end Pistache.Async
