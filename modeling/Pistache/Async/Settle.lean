import Pistache.Async.Invariant
import Mathlib.Algebra.BigOperators.Group.Finset.Basic
import Mathlib.Algebra.Order.BigOperators.Group.Finset

/-!
# Settlement of promises

Every run of `then`, `resolve` and `reject` on any set of promises, made from any threads, under
the condition on its steps.

* `Inv.ends` — a section comes to its end when its callbacks make no further calls: each task is
  paid for by a continuation that has still to run or to return.
* `settles_once` — over all runs: an outcome stays, and the continuations run once each, in the
  order of attachment and with its branch.
-/

set_option autoImplicit false

namespace Pistache.Async

variable {V E : Type}

namespace System

variable (s : System V E)

/-! ## The end of a section -/

/-- What a continuation may still cause: its own call and its return, and for that of a `then`
those of the `Chainer` that follows it. -/
def rank (c : Id) (r : Request V E) : Nat :=
  match r.continuation with
  | .link _ _ =>
    if ¬ (s.cores c).started r then 4 else if r.number ∈ bodies s.stack then 3 else 0
  | .chainer _ =>
    if ¬ (s.cores c).started r then 2 else if r.number ∈ bodies s.stack then 1 else 0

open Classical in
noncomputable def weight (n : Nat) : Nat :=
  if h : ∃ x : Id × Request V E, x.2 ∈ (s.cores x.1).attached ∧ x.2.number = n then
    s.rank h.choose.1 h.choose.2
  else 0

noncomputable def load : Nat := ∑ n ∈ Finset.range s.next, s.weight n

variable {s}

theorem Inv.weight_eq (h : Inv s) {c : Id} {r : Request V E} (hr : r ∈ (s.cores c).attached) :
    s.weight r.number = s.rank c r := by
  have hex : ∃ x : Id × Request V E, x.2 ∈ (s.cores x.1).attached ∧ x.2.number = r.number :=
    ⟨(c, r), hr, rfl⟩
  rw [weight, dif_pos hex]
  obtain ⟨hmem, hnumber⟩ := hex.choose_spec
  obtain ⟨hc, hr'⟩ := h.same_request hmem hr hnumber
  rw [hc, hr']

theorem weight_of_absent {n : Nat} (h : ∀ c, ∀ r ∈ (s.cores c).attached, r.number ≠ n) :
    s.weight n = 0 := by
  refine dif_neg ?_
  rintro ⟨x, hx, hn⟩
  exact h x.1 x.2 hx hn

/-- The weight of every number, from the ranks of the requests. -/
theorem Inv.weight_le (h : Inv s) {s' : System V E} (h' : Inv s') {n : Nat}
    (hrank : ∀ c, ∀ r ∈ (s'.cores c).attached, r.number = n →
      r ∈ (s.cores c).attached ∧ s'.rank c r ≤ s.rank c r) : s'.weight n ≤ s.weight n := by
  by_cases hex : ∃ c, ∃ r ∈ (s'.cores c).attached, r.number = n
  · obtain ⟨c, r, hr, rfl⟩ := hex
    obtain ⟨hmem, hle⟩ := hrank c r hr rfl
    rw [h.weight_eq hmem, h'.weight_eq hr]
    exact hle
  · rw [weight_of_absent fun c r hr hn => hex ⟨c, r, hr, hn⟩]
    exact Nat.zero_le _

/-- The load falls by what one weight falls by. -/
theorem load_add_le {s' : System V E} (hnext : s'.next = s.next)
    (hle : ∀ n, s'.weight n ≤ s.weight n) {n k : Nat} (hn : n < s.next)
    (hk : s'.weight n + k ≤ s.weight n) : s'.load + k ≤ s.load := by
  have hmem : n ∈ Finset.range s.next := Finset.mem_range.mpr hn
  unfold load
  rw [hnext, ← Finset.add_sum_erase _ _ hmem, ← Finset.add_sum_erase _ _ hmem]
  have hrest := Finset.sum_le_sum fun m (_ : m ∈ (Finset.range s.next).erase n) => hle m
  omega

/-- Nothing was attached or called, and no callback has begun. -/
structure Shrinks (s s' : System V E) : Prop where
  next : s'.next = s.next
  attached : ∀ c, (s'.cores c).attached = (s.cores c).attached
  ran : ∀ c, (s'.cores c).ran = (s.cores c).ran
  bodies : ∀ n, n ∈ bodies s'.stack → n ∈ bodies s.stack

namespace Shrinks

variable {s' s'' : System V E}

theorem trans (h : s.Shrinks s') (h' : s'.Shrinks s'') : s.Shrinks s'' :=
  ⟨h'.next.trans h.next, fun c => (h'.attached c).trans (h.attached c),
    fun c => (h'.ran c).trans (h.ran c), fun n hn => h.bodies n (h'.bodies n hn)⟩

theorem started_iff (h : s.Shrinks s') (c : Id) (r : Request V E) :
    (s'.cores c).started r ↔ (s.cores c).started r := by
  rw [Core.started, Core.started, h.ran]

theorem rank_le (h : s.Shrinks s') (c : Id) (r : Request V E) : s'.rank c r ≤ s.rank c r := by
  have hbodies := h.bodies r.number
  unfold rank
  by_cases hstarted : (s.cores c).started r <;> by_cases hr' : r.number ∈ System.bodies s'.stack <;>
    by_cases hr : r.number ∈ System.bodies s.stack <;> cases r.continuation <;>
    simp_all [h.started_iff c r]

theorem weight_le (h : s.Shrinks s') (hinv : Inv s) (hinv' : Inv s') (n : Nat) :
    s'.weight n ≤ s.weight n :=
  hinv.weight_le hinv' fun c r hr _ => ⟨h.attached c ▸ hr, h.rank_le c r⟩

theorem load_le (h : s.Shrinks s') (hinv : Inv s) (hinv' : Inv s') : s'.load ≤ s.load := by
  unfold load
  rw [h.next]
  exact Finset.sum_le_sum fun n _ => h.weight_le hinv hinv' n

end Shrinks

theorem shrinks_withStack (s : System V E) {l : List (Task V E)}
    (h : ∀ n, n ∈ bodies l → n ∈ bodies s.stack) : s.Shrinks (s.withStack l) :=
  ⟨rfl, fun _ => rfl, fun _ => rfl, h⟩

theorem Settles.shrinks {s' : System V E} {c : Id} {o : Outcome V E} (h : s.Settles c o s') :
    s.Shrinks s' := by
  refine ⟨h.next, h.attached, h.ran, fun n hn => ?_⟩
  rwa [h.stack, bodies_append, bodies_map_notify, List.nil_append] at hn

theorem Fruitless.shrinks {s' : System V E} {c : Id} (h : s.Fruitless c s') : s.Shrinks s' := by
  cases h with
  | same => exact shrinks_withStack s fun _ hn => hn
  | again _ =>
    unfold System.settle
    rw [set_cores]
    refine shrinks_withStack s fun n hn => ?_
    rwa [bodies_append, bodies_map_notify, List.nil_append] at hn
  | thrown _ =>
    obtain ⟨ended, rest, hstack, hended, hthrown⟩ := s.thrown_eq
    rw [hthrown]
    refine shrinks_withStack s fun n hn => ?_
    rwa [hstack, bodies_append, hended, List.nil_append]

/-- The call of a continuation that has not run lowers its rank. -/
theorem Inv.load_called (h : Inv s) {b : Branch} {c : Id} {r : Request V E}
    {rest : List (Task V E)} (hstack : s.stack = .notify b c r :: rest)
    (hinv : Inv (s.called b c r rest)) (hwaits : ¬ (s.cores c).started r) :
    (s.called b c r rest).load < s.load := by
  have hr : r ∈ (s.cores c).attached := (h.fits_head hstack).1
  have hr' : r ∈ ((s.called b c r rest).cores c).attached := by rwa [called_attached]
  have hbodies : bodies (s.called b c r rest).stack = r.number :: bodies rest := rfl
  have hstarted : ∀ r', ((s.called b c r rest).cores c).started r' ↔
      (s.cores c).started r' ∨ r'.number = r.number := fun r' => by
    rw [called_cores_self, Core.started_call]
  have hself : (s.called b c r rest).rank c r + 1 ≤ s.rank c r := by
    unfold rank
    cases r.continuation <;> simp [hstarted, hbodies, hwaits]
  have hle : ∀ n, (s.called b c r rest).weight n ≤ s.weight n := by
    refine fun n => h.weight_le hinv fun c' r' hmem hn => ?_
    rw [called_attached] at hmem
    refine ⟨hmem, ?_⟩
    by_cases heq : r'.number = r.number
    · obtain ⟨rfl, rfl⟩ := h.same_request hmem hr heq
      exact Nat.le_of_succ_le hself
    · have hsame : ((s.called b c r rest).cores c').started r' ↔ (s.cores c').started r' := by
        by_cases hc : c' = c
        · subst hc
          rw [hstarted]
          exact or_iff_left heq
        · rw [called_cores_of_ne hc]
      unfold rank
      simp only [hsame, hbodies, hstack, bodies_notify, List.mem_cons, heq, false_or]
      exact Nat.le_refl _
  have hnext : (s.called b c r rest).next = s.next := rfl
  have hload : (s.called b c r rest).load + 1 ≤ s.load := by
    refine load_add_le hnext hle (h.fresh c r hr).1 ?_
    rw [h.weight_eq hr, hinv.weight_eq hr']
    exact hself
  exact hload

theorem rank_running {c : Id} {r : Request V E} (hstarted : (s.cores c).started r)
    (hrunning : r.number ∈ bodies s.stack) :
    s.rank c r = match r.continuation with
      | .link _ _ => 3
      | .chainer _ => 1 := by
  unfold rank
  cases r.continuation <;> simp [hstarted, hrunning]

/-- The return of a callback leaves nothing of its rank. -/
theorem Inv.load_ended (h : Inv s) {b : Branch} {c : Id} {r : Request V E} {rest : List (Task V E)}
    (hstack : s.stack = .body b c r :: rest) {s' : System V E} (hinv : Inv s')
    (hshrinks : (s.withStack rest).Shrinks s') : s'.load + s.rank c r ≤ s.load := by
  obtain ⟨hr, _, hstarted⟩ : s.Fits (.body b c r) := h.fits_head hstack
  have hframes := h.frames
  rw [hstack, bodies_body, List.nodup_cons] at hframes
  have hsub : s.Shrinks s' := (shrinks_withStack s fun n hn => by
    rw [hstack]; exact List.mem_cons_of_mem _ hn).trans hshrinks
  have hzero : s'.rank c r = 0 := by
    have hgone : r.number ∉ bodies s'.stack := fun hmem => hframes.1 (hshrinks.bodies _ hmem)
    unfold rank
    cases r.continuation <;> simp [hsub.started_iff c r, hstarted, hgone]
  refine load_add_le hsub.next (hsub.weight_le h hinv) (h.fresh c r hr).1 ?_
  rw [h.weight_eq hr, hinv.weight_eq (hsub.attached c ▸ hr), hzero, Nat.zero_add]

/-- A `Chainer` costs its own call and its return. -/
theorem Inv.load_attach (h : Inv s) {q : Id} {k : Nat} (hinv : Inv (s.attach q (.chainer k))) :
    (s.attach q (.chainer k)).load ≤ s.load + 2 := by
  have hattaches := h.attaches q (.chainer k)
  unfold load
  rw [hattaches.next, Finset.sum_range_succ]
  refine Nat.add_le_add (Finset.sum_le_sum fun n hn => ?_) ?_
  · refine h.weight_le hinv fun c r hr hnumber => ?_
    have hne : r.number ≠ s.next := by
      rw [hnumber]
      exact Nat.ne_of_lt (Finset.mem_range.mp hn)
    rcases hattaches.mem_attached hr with hr | ⟨_, rfl⟩
    · refine ⟨hr, ?_⟩
      have hstarted : ((s.attach q (.chainer k)).cores c).started r ↔ (s.cores c).started r := by
        by_cases hc : c = q
        · subst hc
          exact hattaches.started r hne
        · rw [hattaches.others c hc]
      unfold rank
      simp only [hstarted, hattaches.bodies _ hne]
      exact Nat.le_refl _
    · exact absurd rfl hne
  · have hmem : (⟨s.next, .chainer k⟩ : Request V E) ∈
        ((s.attach q (.chainer k)).cores q).attached := by
      rw [hattaches.self]
      exact List.mem_append_right _ (List.mem_singleton_self _)
    have hweight := hinv.weight_eq hmem
    dsimp only at hweight
    rw [hweight]
    simp only [rank]
    split
    · exact Nat.le_refl _
    · split <;> omega

/-- The promise that a callback returns can be waited for. -/
theorem ready_of_returned {b : Branch} {c : Id} {r : Request V E} {q : Id}
    (hends : s.Ends b c r) (h : s.returned b c r = some q) : s.Ready q := by
  unfold returned at h
  unfold Ends at hends
  split at h
  · rename_i leaves f reject_ hk
    rw [hk] at hends
    split at h
    · cases hf : f (s.cores c).value with
      | ok q' =>
        rw [hf] at h
        cases h
        exact hends.2.2 q hf
      | error e =>
        rw [hf] at h
        cases h
    · cases h
  · cases h

/-- The end of a callback leaves less to do. -/
theorem Inv.load_finish (h : Inv s) {b : Branch} {c : Id} {r : Request V E}
    {rest : List (Task V E)} (hstack : s.stack = .body b c r :: rest)
    (hends : (s.withStack rest).Ends b c r) : ((s.withStack rest).finish b c r).load < s.load := by
  obtain ⟨o, rfl, hending⟩ := h.ending hstack
  have hinv := (hending.finish hends).1
  have hcases := finish_cases (s := s.withStack rest) hending.outcome hends
  have hrunning : r.number ∈ bodies s.stack := by rw [hstack]; exact List.mem_cons_self ..
  have hrank := rank_running hending.started hrunning
  cases hverdict : r.continuation.verdict o with
  | settled o' =>
    rw [hverdict] at hcases
    have hload := h.load_ended hstack hinv hcases.shrinks
    rw [hrank] at hload
    split at hload <;> omega
  | stuck =>
    rw [hverdict] at hcases
    have hload := h.load_ended hstack hinv hcases.shrinks
    rw [hrank] at hload
    split at hload <;> omega
  | waits q =>
    rw [hverdict] at hcases
    obtain ⟨heq, _, _⟩ := hcases
    rw [heq] at hinv ⊢
    have hload := h.load_ended hstack hending.inv (shrinks_withStack _ fun _ hn => hn)
    have hattach := hending.inv.load_attach hinv
    -- a `Chainer` never waits, so the callback was that of a `then`
    cases hk : r.continuation with
    | link _ _ =>
      rw [hk] at hrank
      dsimp only at hrank
      omega
    | chainer k =>
      rw [hk] at hverdict
      cases hverdict

/-- One more task of a section: there is less to do, or as much and a shorter stack. -/
theorem Inv.run_step (h : Inv s) (hstack : s.stack ≠ []) (hsound : s.Sound .run) :
    (s.step .run).load < s.load ∨
      (s.step .run).load = s.load ∧ (s.step .run).stack.length < s.stack.length := by
  have hinv := (h.step hsound).1
  have hpop : ∀ task rest, s.stack = task :: rest → s.Shrinks (s.step .run) →
      (s.step .run).stack = rest → (s.step .run).load < s.load ∨
        (s.step .run).load = s.load ∧ (s.step .run).stack.length < s.stack.length := by
    intro task rest hs hshrinks hrest
    have hlength : (s.step .run).stack.length < s.stack.length := by
      rw [hrest, hs]
      exact Nat.lt_succ_self _
    rcases Nat.lt_or_eq_of_le (hshrinks.load_le h hinv) with hlt | heq
    · exact .inl hlt
    · exact .inr ⟨heq, hlength⟩
  cases hs : s.stack with
  | nil => exact absurd hs hstack
  | cons task rest =>
    cases task with
    | notify b c r =>
      have hb : (s.cores c).state.branch = some b :=
        (h.fits (.notify b c r) (by rw [hs]; exact List.mem_cons_self ..)).2
      have hrun : s.step .run = (s.withStack rest).start b c r := by simp only [System.step, hs]
      by_cases hr : (s.cores c).started r
      · rw [start_of_started h hb hr] at hrun
        rw [← hs]
        refine hpop _ rest hs ?_ (by rw [hrun, withStack_stack])
        rw [hrun]
        refine shrinks_withStack s fun n hn => ?_
        rwa [hs, bodies_notify]
      · rw [start_of_waits h hb hr] at hrun
        rw [hrun] at hinv ⊢
        exact .inl (h.load_called hs hinv hr)
    | body b c r =>
      have hends := hsound b c r rest hs
      have hunlocked : ¬ ∃ q ∈ s.returned b c r, (s.withStack rest).locked q := by
        rintro ⟨q, hq, hlocked⟩
        have hready := ready_of_returned (s := s.withStack rest) hends hq
        rw [hready.1] at hlocked
        cases hlocked
      have hrun : s.step .run = (s.withStack rest).finish b c r := by
        simp only [System.step, hs]
        exact if_neg hunlocked
      rw [hrun]
      exact .inl (h.load_finish hs hends)
    | push c r =>
      have hrun : s.step .run = (s.withStack rest).set c
          { s.cores c with requests := (s.cores c).requests ++ [r] } := by
        simp only [System.step, hs]
      rw [← hs]
      refine hpop _ rest hs ?_ (by rw [hrun]; rfl)
      rw [hrun]
      refine ⟨rfl, fun c' => ?_, fun c' => ?_, fun n hn => ?_⟩
      · by_cases hc : c' = c
        · subst hc; rw [set_cores_self]
        · rw [set_cores_of_ne _ hc]; rfl
      · by_cases hc : c' = c
        · subst hc; rw [set_cores_self]
        · rw [set_cores_of_ne _ hc]; rfl
      · rw [hs, bodies_push]
        exact hn
    | unlock c =>
      have hrun : s.step .run = s.withStack rest := by simp only [System.step, hs]
      rw [← hs]
      refine hpop _ rest hs ?_ (by rw [hrun, withStack_stack])
      rw [hrun]
      refine shrinks_withStack s fun n hn => ?_
      rwa [hs, bodies_unlock]

/-- **A section ends** when its callbacks make no more calls, unless one of them ends as the
condition excludes. -/
theorem Inv.ends {s : System V E} (h : Inv s) :
    ∃ n, (Async.run s (List.replicate n .run)).stack = [] ∨
      ¬ (Async.run s (List.replicate n .run)).Sound .run := by
  by_cases hstack : s.stack = []
  · exact ⟨0, .inl hstack⟩
  · by_cases hsound : s.Sound .run
    · have hless := h.run_step hstack hsound
      obtain ⟨n, hn⟩ := Inv.ends (h.step hsound).1
      exact ⟨n + 1, hn⟩
    · exact ⟨0, .inr hsound⟩
termination_by (s.load, s.stack.length)
decreasing_by
  rcases hless with hlt | ⟨heq, hlt⟩
  · exact Prod.Lex.left _ _ hlt
  · rw [heq]
    exact Prod.Lex.right _ hlt

/-! ## The claim -/

/-- The continuations of a core have run as they should: none before the settlement; after it,
the first of those attached, in the order of attachment, each once and with the branch of the
state, and all of them when no section is under way. -/
def RunsInOrder (s : System V E) (c : Id) : Prop :=
  ((s.cores c).attached.map Request.number).Nodup ∧
    match (s.cores c).outcome with
    | none => (s.cores c).ran = []
    | some o => (s.cores c).ran <+: (s.cores c).attached.map (fun r => (r.number, o.branch)) ∧
        (s.stack = [] → (s.cores c).ran = (s.cores c).attached.map fun r => (r.number, o.branch))

theorem Inv.runsInOrder (h : Inv s) (c : Id) : s.RunsInOrder c := by
  refine ⟨(h.ordered c).nodup, ?_⟩
  cases houtcome : (s.cores c).outcome with
  | none => exact (h.ordered c).unsettled (Core.outcome_eq_none.mp houtcome)
  | some o =>
    have hbranch := Core.branch_of_outcome houtcome
    refine ⟨(h.ordered c).ran_isPrefix hbranch, fun hstack => ?_⟩
    have hordered := h.ordered c
    rw [hstack] at hordered
    exact hordered.ran_all hbranch

open Machine in
/-- **Settlement.** In every run whose steps meet the condition, a core that has left Pending
keeps its outcome, the continuations attached to a core run once each, in the order of attachment
and with the branch of its outcome, and a section that is under way comes to its end. -/
theorem settles_once (s : System V E) (hs : s.Initial) (events later : List (Event V E))
    (hsound : Always System.step Sound s (events ++ later)) :
    (∀ c o, ((run s events).cores c).outcome = some o →
      ((run s (events ++ later)).cores c).outcome = some o) ∧
    (∀ c, (run s (events ++ later)).RunsInOrder c) ∧
    ∃ n, (run s (events ++ later ++ List.replicate n .run)).stack = [] ∨
      ¬ (run s (events ++ later ++ List.replicate n .run)).Sound .run := by
  have hinv := hs.inv.run (events ++ later) hsound
  refine ⟨fun c o ho => ?_, hinv.runsInOrder, ?_⟩
  · rw [run, run_append]
    have hsplit := (Always.append_iff events later s).mp hsound
    exact ((hs.inv.run events hsplit.1).later_run later hsplit.2).outcome c o ho
  · obtain ⟨n, hn⟩ := hinv.ends
    refine ⟨n, ?_⟩
    rw [run, run_append]
    exact hn

/-- Promises of numbers that nobody has settled. -/
def unsettled : System Nat Nat where
  isVoid _ := false
  cores _ := {}

theorem unsettled_initial : unsettled.Initial :=
  ⟨rfl, rfl, rfl, fun _ => rfl, fun _ => rfl, fun _ => rfl, fun _ => rfl⟩

/-- `then` with a callback that returns 7. -/
def attachSeven (c : Id) : Event Nat Nat :=
  .attach c (.value id fun _ => .ok 7) fun _ => .rethrows

theorem settles_once_resolved :
    let events := [attachSeven (.promise 0), .test (.resolve 0 (.value 5)), .enter 0]
    let later := [.run, .run, .run]
    (∀ c o, ((run unsettled events).cores c).outcome = some o →
      ((run unsettled (events ++ later)).cores c).outcome = some o) ∧
    (∀ c, (run unsettled (events ++ later)).RunsInOrder c) ∧
    ∃ n, (run unsettled (events ++ later ++ List.replicate n .run)).stack = [] ∨
      ¬ (run unsettled (events ++ later ++ List.replicate n .run)).Sound .run := by
  refine settles_once unsettled unsettled_initial _ _ ⟨?_, trivial, ?_, ?_, ?_, ?_, trivial⟩
  · exact fun _ => ⟨rfl, fun hstate => absurd rfl hstate⟩
  · rintro _ call hcall
    cases hcall
    exact ⟨rfl, fun _ => rfl⟩
  · exact fun _ _ _ _ hstack => nomatch hstack
  · rintro b c r rest hstack
    cases hstack
    exact ⟨rfl, fun _ he => nomatch he⟩
  · exact fun _ _ _ _ hstack => nomatch hstack

/-- A resolution and a rejection that both pass the test before either takes the lock: the
promise is Fulfilled with 1 and then Rejected, and its continuation runs twice. -/
theorem raced_twice :
    let first := [attachSeven (.promise 0), .test (.resolve 0 (.value 1)), .test (.reject 0 2),
      .enter 0, .run, .run, .run]
    let second := [.enter 0, .run, .run, .run]
    ((run unsettled first).cores (.promise 0)).outcome = some (.fulfilled (some 1)) ∧
    ((run unsettled (first ++ second)).cores (.promise 0)).outcome = some (.rejected (some 2)) ∧
    ((run unsettled (first ++ second)).cores (.promise 0)).ran = [(0, .resolve), (0, .reject)] ∧
    ((run unsettled (first ++ second)).cores (.chain 0)).outcome = some (.rejected (some 2)) := by
  decide

end System

end Pistache.Async
