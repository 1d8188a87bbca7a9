import Pistache.Async.Section

/-!
# The invariant of promises

What holds between any two steps of a program that meets the condition.

* `Inv` — the order of the continuations in each core, what the tasks of the section under way
  stand for, and at most one holder for each chain, which is Pending while it has one.
* `Later` — what a step keeps: what was attached, what has run, and the outcomes.
* `Inv.step`, `Inv.run` — one step, and a run.
-/

set_option autoImplicit false

namespace Pistache.Async

variable {V E : Type}

namespace System

variable (s : System V E)

/-- The continuation may still settle its chain: it has not been called, or its callback is
running. -/
def Live (c : Id) (r : Request V E) : Prop :=
  ¬ (s.cores c).started r ∨ r.number ∈ bodies s.stack

/-- The request is to settle the chain. -/
def Holds (k n : Nat) : Prop :=
  ∃ c, ∃ r ∈ (s.cores c).attached, s.Live c r ∧ r.chain = k ∧ r.number = n

def Fits : Task V E → Prop
  | .notify b c r => r ∈ (s.cores c).attached ∧ (s.cores c).state.branch = some b
  | .body b c r => r ∈ (s.cores c).attached ∧ (s.cores c).state.branch = some b ∧
      (s.cores c).started r
  | .push c r => r ∈ (s.cores c).attached ∧ (s.cores c).started r
  | .unlock _ => True

structure Inv (s : System V E) : Prop where
  ordered : ∀ c, (s.cores c).Ordered (queue c s.stack)
  fresh : ∀ c, ∀ r ∈ (s.cores c).attached, r.number < s.next ∧ r.chain < s.next
  apart : ∀ c c' r r', r ∈ (s.cores c).attached → r' ∈ (s.cores c').attached →
    r.number = r'.number → c = c'
  fits : ∀ task ∈ s.stack, s.Fits task
  frames : (bodies s.stack).Nodup
  holder : ∀ k n n', s.Holds k n → s.Holds k n' → n = n'
  pending : ∀ k n, s.Holds k n → (s.cores (.chain k)).state = .pending
  ahead : ∀ k, s.next ≤ k → (s.cores (.chain k)).state = .pending

/-- What a step keeps. -/
structure Later (s s' : System V E) : Prop where
  attached : ∀ c, ∀ r ∈ (s.cores c).attached, r ∈ (s'.cores c).attached
  started : ∀ c r, (s.cores c).started r → (s'.cores c).started r
  outcome : ∀ c o, (s.cores c).outcome = some o → (s'.cores c).outcome = some o

variable {s}

namespace Later

variable {s' s'' : System V E}

theorem refl (s : System V E) : s.Later s := ⟨fun _ _ h => h, fun _ _ h => h, fun _ _ h => h⟩

theorem withStack (s : System V E) (l : List (Task V E)) : s.Later (s.withStack l) :=
  ⟨fun _ _ h => h, fun _ _ h => h, fun _ _ h => h⟩

theorem trans (h : s.Later s') (h' : s'.Later s'') : s.Later s'' :=
  ⟨fun c r hr => h'.attached c r (h.attached c r hr),
    fun c r hr => h'.started c r (h.started c r hr),
    fun c o ho => h'.outcome c o (h.outcome c o ho)⟩

theorem branch (h : s.Later s') {c : Id} {b : Branch} (hb : (s.cores c).state.branch = some b) :
    (s'.cores c).state.branch = some b := by
  obtain ⟨o, ho, rfl⟩ := Core.outcome_of_branch hb
  exact Core.branch_of_outcome (h.outcome c o ho)

theorem fits (h : s.Later s') {task : Task V E} (ht : s.Fits task) : s'.Fits task := by
  cases task with
  | notify b c r => exact ⟨h.attached c r ht.1, h.branch ht.2⟩
  | body b c r => exact ⟨h.attached c r ht.1, h.branch ht.2.1, h.started c r ht.2.2⟩
  | push c r => exact ⟨h.attached c r ht.1, h.started c r ht.2⟩
  | unlock c => trivial

/-- One core is written. -/
theorem set {c : Id} {core : Core V E}
    (hattached : ∀ r ∈ (s.cores c).attached, r ∈ core.attached)
    (hstarted : ∀ r, (s.cores c).started r → core.started r)
    (houtcome : ∀ o, (s.cores c).outcome = some o → core.outcome = some o) :
    s.Later (s.set c core) := by
  refine ⟨fun c' r hr => ?_, fun c' r hr => ?_, fun c' o ho => ?_⟩
  all_goals by_cases hc : c' = c
  · subst hc; rw [set_cores_self]; exact hattached r hr
  · rw [set_cores_of_ne s hc]; exact hr
  · subst hc; rw [set_cores_self]; exact hstarted r hr
  · rw [set_cores_of_ne s hc]; exact hr
  · subst hc; rw [set_cores_self]; exact houtcome o ho
  · rw [set_cores_of_ne s hc]; exact ho

end Later

/-- The holders depend on what is attached, what has run and which callbacks are running. -/
theorem Holds.congr {s' : System V E} {k n : Nat}
    (hattached : ∀ c, (s'.cores c).attached = (s.cores c).attached)
    (hran : ∀ c, (s'.cores c).ran = (s.cores c).ran)
    (hbodies : bodies s'.stack = bodies s.stack) : s'.Holds k n ↔ s.Holds k n := by
  simp only [Holds, Live, Core.started, hattached, hran, hbodies]

/-! ## The end of tasks -/

theorem Holds.suffix (ended : List (Task V E)) {rest : List (Task V E)}
    (hstack : s.stack = ended ++ rest) {k n : Nat} (h : (s.withStack rest).Holds k n) : s.Holds k n := by
  obtain ⟨c, r, hr, hlive, hk, hn⟩ := h
  refine ⟨c, r, hr, ?_, hk, hn⟩
  rcases hlive with hlive | hlive
  · exact .inl hlive
  · refine .inr ?_
    rw [hstack, bodies_append]
    exact List.mem_append_right _ hlive

/-- Tasks end, and no continuation is left out. -/
theorem Inv.suffix (h : Inv s) (ended : List (Task V E)) {rest : List (Task V E)}
    (hstack : s.stack = ended ++ rest)
    (hended : ∀ b c r, .notify b c r ∈ ended → (s.cores c).started r) : Inv (s.withStack rest) where
  ordered c := by
    have hordered := h.ordered c
    rw [hstack, queue_append] at hordered
    refine hordered.drop fun r hr => ?_
    obtain ⟨b, hb⟩ := mem_queue.mp hr
    exact hended b c r hb
  fresh := h.fresh
  apart := h.apart
  fits task htask := by
    refine h.fits task ?_
    rw [hstack]
    exact List.mem_append_right _ htask
  frames := by
    have hframes := h.frames
    rw [hstack, bodies_append] at hframes
    exact (List.nodup_append.mp hframes).2.1
  holder k n n' hn hn' := h.holder k n n' (hn.suffix _ hstack) (hn'.suffix _ hstack)
  pending k n hn := h.pending k n (hn.suffix _ hstack)
  ahead := h.ahead

theorem Inv.unlock (h : Inv s) (c : Id) : Inv (s.withStack (.unlock c :: s.stack)) where
  ordered c' := by
    rw [withStack_stack, queue_unlock]
    exact h.ordered c'
  fresh := h.fresh
  apart := h.apart
  fits task htask := by
    rcases List.mem_cons.mp htask with rfl | htask
    · trivial
    · exact h.fits task htask
  frames := h.frames
  holder := h.holder
  pending := h.pending
  ahead := h.ahead

/-! ## The first task -/

theorem Inv.fits_head (h : Inv s) {task : Task V E} {rest : List (Task V E)}
    (hstack : s.stack = task :: rest) : s.Fits task :=
  h.fits task (by rw [hstack]; exact List.mem_cons_self ..)

theorem Inv.fits_tail (h : Inv s) {task : Task V E} {rest : List (Task V E)}
    (hstack : s.stack = task :: rest) : ∀ task ∈ rest, s.Fits task := fun task htask =>
  h.fits task (by rw [hstack]; exact List.mem_cons_of_mem _ htask)

/-- A number stands for one continuation. -/
theorem Inv.same_request (h : Inv s) {c c' : Id} {r r' : Request V E}
    (hr' : r' ∈ (s.cores c').attached) (hr : r ∈ (s.cores c).attached)
    (heq : r'.number = r.number) : c' = c ∧ r' = r := by
  have hc : c' = c := h.apart c' c r' r hr' hr heq
  subst hc
  exact ⟨rfl, (h.ordered c').numbers hr' hr heq⟩

/-- The callback that runs is to settle its chain. -/
theorem Holds.of_body {b : Branch} {c : Id} {r : Request V E} {rest : List (Task V E)}
    (hstack : s.stack = .body b c r :: rest) (hr : r ∈ (s.cores c).attached) :
    s.Holds r.chain r.number :=
  ⟨c, r, hr, .inr (by rw [hstack]; exact List.mem_cons_self ..), rfl, rfl⟩

/-- A callback has ended: nobody is to settle its chain. -/
theorem Inv.free (h : Inv s) {b : Branch} {c : Id} {r : Request V E} {rest : List (Task V E)}
    (hstack : s.stack = .body b c r :: rest) (n : Nat) : ¬ (s.withStack rest).Holds r.chain n := by
  intro hholds
  have hfits : s.Fits (.body b c r) := h.fits_head hstack
  have hheld : s.Holds r.chain r.number := .of_body hstack hfits.1
  have hn : n = r.number := h.holder _ _ _ (hholds.suffix [_] hstack) hheld
  obtain ⟨c', r', hr', hlive, _, hn'⟩ := hholds
  obtain ⟨rfl, rfl⟩ := h.same_request hr' hfits.1 (hn'.trans hn)
  have hframes := h.frames
  rw [hstack, bodies_body, List.nodup_cons] at hframes
  rcases hlive with hlive | hlive
  · exact hlive hfits.2.2
  · exact hframes.1 hlive

/-! ## Settlements -/

theorem Settles.cores_of_ne {s' : System V E} {c c' : Id} {o : Outcome V E}
    (h : s.Settles c o s') (hc : c' ≠ c) : s'.cores c' = s.cores c' := by
  obtain ⟨core', rfl, _⟩ := h.eq
  exact set_cores_of_ne s hc core'

theorem Settles.outcome {s' : System V E} {c : Id} {o : Outcome V E} (h : s.Settles c o s') :
    (s'.cores c).outcome = some o := by
  obtain ⟨core', rfl, _, _, _, houtcome⟩ := h.eq
  exact (congrArg Core.outcome (set_cores_self s c core')).trans houtcome

theorem Settles.attached {s' : System V E} {c : Id} {o : Outcome V E} (h : s.Settles c o s')
    (c' : Id) : (s'.cores c').attached = (s.cores c').attached := by
  by_cases hc : c' = c
  · subst hc
    obtain ⟨core', rfl, _, hattached, _⟩ := h.eq
    exact (congrArg Core.attached (set_cores_self s c' core')).trans hattached
  · rw [h.cores_of_ne hc]

theorem Settles.ran {s' : System V E} {c : Id} {o : Outcome V E} (h : s.Settles c o s')
    (c' : Id) : (s'.cores c').ran = (s.cores c').ran := by
  by_cases hc : c' = c
  · subst hc
    obtain ⟨core', rfl, _, _, hran, _⟩ := h.eq
    exact (congrArg Core.ran (set_cores_self s c' core')).trans hran
  · rw [h.cores_of_ne hc]

theorem Settles.stack {s' : System V E} {c : Id} {o : Outcome V E} (h : s.Settles c o s') :
    s'.stack = (s.cores c).requests.map (.notify o.branch c) ++ s.stack := by
  obtain ⟨core', rfl, hrequests, _⟩ := h.eq
  rw [← hrequests]
  rfl

theorem Settles.next {s' : System V E} {c : Id} {o : Outcome V E} (h : s.Settles c o s') :
    s'.next = s.next := by
  obtain ⟨core', rfl, _⟩ := h.eq
  rfl

theorem Settles.holds {s' : System V E} {c : Id} {o : Outcome V E} (h : s.Settles c o s')
    {k n : Nat} : s'.Holds k n ↔ s.Holds k n := by
  refine Holds.congr h.attached h.ran ?_
  rw [h.stack, bodies_append, bodies_map_notify, List.nil_append]

theorem Settles.later {s' : System V E} {c : Id} {o : Outcome V E} (h : s.Settles c o s')
    (hpending : (s.cores c).state = .pending) : s.Later s' := by
  refine ⟨fun c' r hr => (h.attached c').symm ▸ hr, fun c' r hr => ?_, fun c' o' ho' => ?_⟩
  · rwa [Core.started, h.ran c']
  · by_cases hc : c' = c
    · subst hc
      exact absurd hpending (Core.not_pending_of_outcome ho')
    · rwa [h.cores_of_ne hc]

/-- A settlement of a Pending core that no continuation is to settle. -/
theorem Inv.settle (h : Inv s) {s' : System V E} {c : Id} {o : Outcome V E}
    (hsettles : s.Settles c o s') (hpending : (s.cores c).state = .pending)
    (hfree : ∀ k, c = .chain k → k < s.next ∧ ∀ n, ¬ s.Holds k n) : Inv s' where
  ordered c' := by
    rw [hsettles.stack, queue_append]
    by_cases hc : c' = c
    · subst hc
      rw [queue_map_notify]
      obtain ⟨core', rfl, hrequests, hattached, hran, houtcome⟩ := hsettles.eq
      rw [show (s.settle o.branch c' core').cores c' = core' from set_cores_self s c' core']
      exact (h.ordered c').settle hpending hrequests hattached hran
        (Core.not_pending_of_outcome houtcome)
    · rw [queue_map_notify_of_ne (Ne.symm hc), List.nil_append, hsettles.cores_of_ne hc]
      exact h.ordered c'
  fresh c' r hr := by
    rw [hsettles.next]
    exact h.fresh c' r (hsettles.attached c' ▸ hr)
  apart c₁ c₂ r₁ r₂ h₁ h₂ :=
    h.apart c₁ c₂ r₁ r₂ (hsettles.attached c₁ ▸ h₁) (hsettles.attached c₂ ▸ h₂)
  fits task htask := by
    rw [hsettles.stack] at htask
    rcases List.mem_append.mp htask with htask | htask
    · obtain ⟨r, hr, rfl⟩ := List.mem_map.mp htask
      refine ⟨?_, Core.branch_of_outcome hsettles.outcome⟩
      rw [hsettles.attached]
      exact (h.ordered c).within r hr
    · exact (hsettles.later hpending).fits (h.fits task htask)
  frames := by
    rw [hsettles.stack, bodies_append, bodies_map_notify, List.nil_append]
    exact h.frames
  holder k n n' hn hn' := h.holder k n n' (hsettles.holds.mp hn) (hsettles.holds.mp hn')
  pending k n hn := by
    have hn := hsettles.holds.mp hn
    have hc : Id.chain k ≠ c := fun hc => (hfree k hc.symm).2 n hn
    rw [hsettles.cores_of_ne hc]
    exact h.pending k n hn
  ahead k hk := by
    rw [hsettles.next] at hk
    have hc : Id.chain k ≠ c := fun hc => absurd (hfree k hc.symm).1 (Nat.not_lt.mpr hk)
    rw [hsettles.cores_of_ne hc]
    exact h.ahead k hk

/-- A second loop over the requests of a settled core. -/
theorem Inv.again (h : Inv s) {b : Branch} {c : Id} (hb : (s.cores c).state.branch = some b) :
    Inv (s.settle b c (s.cores c)) := by
  unfold System.settle
  rw [set_cores]
  have hbodies : bodies ((s.cores c).requests.map (.notify b c) ++ s.stack) = bodies s.stack := by
    rw [bodies_append, bodies_map_notify, List.nil_append]
  have hholds : ∀ {k n : Nat}, (s.withStack ((s.cores c).requests.map (.notify b c) ++
      s.stack)).Holds k n ↔ s.Holds k n :=
    Holds.congr (fun _ => rfl) (fun _ => rfl) hbodies
  refine ⟨fun c' => ?_, h.fresh, h.apart, fun task htask => ?_, ?_, fun k n n' hn hn' => ?_,
    fun k n hn => ?_, h.ahead⟩
  · rw [withStack_stack, queue_append]
    by_cases hc : c' = c
    · subst hc
      rw [queue_map_notify]
      exact (h.ordered c').again
    · rw [queue_map_notify_of_ne (Ne.symm hc), List.nil_append]
      exact h.ordered c'
  · rcases List.mem_append.mp htask with htask | htask
    · obtain ⟨r, hr, rfl⟩ := List.mem_map.mp htask
      exact ⟨(h.ordered c).within r hr, hb⟩
    · exact h.fits task htask
  · rw [withStack_stack, hbodies]
    exact h.frames
  · exact h.holder k n n' (hholds.mp hn) (hholds.mp hn')
  · exact h.pending k n (hholds.mp hn)

/-! ## Calls of continuations -/

/-- The system after a loop has called a continuation that had not run. -/
def called (s : System V E) (b : Branch) (c : Id) (r : Request V E) (rest : List (Task V E)) :
    System V E :=
  (s.set c ((s.cores c).call b r)).withStack (.body b c r :: rest)

theorem start_of_started (h : Inv s) {b : Branch} {c : Id} {r : Request V E}
    (hb : (s.cores c).state.branch = some b) (hr : (s.cores c).started r)
    (rest : List (Task V E)) : (s.withStack rest).start b c r = s.withStack rest :=
  if_pos (((h.ordered c).count_iff hb r).mpr hr)

theorem start_of_waits (h : Inv s) {b : Branch} {c : Id} {r : Request V E}
    (hb : (s.cores c).state.branch = some b) (hr : ¬ (s.cores c).started r)
    (rest : List (Task V E)) : (s.withStack rest).start b c r = s.called b c r rest :=
  if_neg fun hcount => hr (((h.ordered c).count_iff hb r).mp hcount)

theorem called_cores_self (b : Branch) (c : Id) (r : Request V E) (rest : List (Task V E)) :
    (s.called b c r rest).cores c = (s.cores c).call b r :=
  set_cores_self s c _

theorem called_cores_of_ne {c c' : Id} (hc : c' ≠ c) (b : Branch) (r : Request V E)
    (rest : List (Task V E)) : (s.called b c r rest).cores c' = s.cores c' :=
  set_cores_of_ne s hc _

theorem later_called (s : System V E) (b : Branch) (c : Id) (r : Request V E)
    (rest : List (Task V E)) : s.Later (s.called b c r rest) := by
  have hset : s.Later (s.set c ((s.cores c).call b r)) :=
    Later.set (fun _ h => h) (fun _ h => Core.started_call.mpr (.inl h)) (fun _ h => h)
  exact ⟨hset.attached, hset.started, hset.outcome⟩

theorem called_attached (b : Branch) (c : Id) (r : Request V E) (rest : List (Task V E))
    (c' : Id) : ((s.called b c r rest).cores c').attached = (s.cores c').attached := by
  by_cases hc : c' = c
  · subst hc
    rw [called_cores_self]
    rfl
  · rw [called_cores_of_ne hc]

theorem called_state (b : Branch) (c : Id) (r : Request V E) (rest : List (Task V E))
    (c' : Id) : ((s.called b c r rest).cores c').state = (s.cores c').state := by
  by_cases hc : c' = c
  · subst hc
    rw [called_cores_self]
    rfl
  · rw [called_cores_of_ne hc]

/-- The callback that begins to run keeps its hold of the chain. -/
theorem Holds.of_called {b : Branch} {c : Id} {r : Request V E} {rest : List (Task V E)}
    (hstack : s.stack = .notify b c r :: rest) (hr : r ∈ (s.cores c).attached)
    (hwaits : ¬ (s.cores c).started r)
    (hapart : ∀ c' r', r' ∈ (s.cores c').attached → r'.number = r.number → c' = c ∧ r' = r)
    {k n : Nat} (h : (s.called b c r rest).Holds k n) : s.Holds k n := by
  obtain ⟨c', r', hr', hlive, hk, hn⟩ := h
  rw [called_attached] at hr'
  refine ⟨c', r', hr', ?_, hk, hn⟩
  by_cases heq : r'.number = r.number
  · obtain ⟨rfl, rfl⟩ := hapart c' r' hr' heq
    exact .inl hwaits
  · rcases hlive with hlive | hlive
    · exact .inl fun hstarted => hlive ((later_called s b c r rest).started c' r' hstarted)
    · refine .inr ?_
      rw [hstack, bodies_notify]
      rw [show (s.called b c r rest).stack = .body b c r :: rest from rfl, bodies_body] at hlive
      rcases List.mem_cons.mp hlive with hlive | hlive
      · exact absurd hlive heq
      · exact hlive

/-- A call of a loop. -/
theorem Inv.start (h : Inv s) {b : Branch} {c : Id} {r : Request V E} {rest : List (Task V E)}
    (hstack : s.stack = .notify b c r :: rest) :
    Inv ((s.withStack rest).start b c r) ∧ s.Later ((s.withStack rest).start b c r) := by
  obtain ⟨hr, hb⟩ : s.Fits (.notify b c r) := h.fits_head hstack
  have hrest := h.fits_tail hstack
  by_cases hwaits : (s.cores c).started r
  · rw [start_of_started h hb hwaits]
    refine ⟨h.suffix [.notify b c r] hstack fun b' c' r' hr' => ?_, Later.withStack s rest⟩
    cases List.mem_singleton.mp hr'
    exact hwaits
  · rw [start_of_waits h hb hwaits]
    have hapart : ∀ c' r', r' ∈ (s.cores c').attached → r'.number = r.number → c' = c ∧ r' = r :=
      fun c' r' hr' heq => h.same_request hr' hr heq
    have hlater := later_called s b c r rest
    refine ⟨⟨fun c' => ?_, fun c' r' hr' => ?_, fun c₁ c₂ r₁ r₂ h₁ h₂ => ?_,
      fun task htask => ?_, ?_, fun k n n' hn hn' => ?_, fun k n hn => ?_, fun k hk => ?_⟩, hlater⟩
    · have hordered := h.ordered c'
      rw [hstack] at hordered
      show ((s.called b c r rest).cores c').Ordered (queue c' rest)
      by_cases hc : c' = c
      · subst hc
        rw [called_cores_self]
        rw [queue_notify] at hordered
        exact hordered.call hb hr hwaits
      · rw [called_cores_of_ne hc]
        rwa [queue_notify_of_ne (Ne.symm hc)] at hordered
    · rw [called_attached] at hr'
      exact h.fresh c' r' hr'
    · rw [called_attached] at h₁ h₂
      exact h.apart c₁ c₂ r₁ r₂ h₁ h₂
    · rcases List.mem_cons.mp htask with rfl | htask
      · refine ⟨hlater.attached c r hr, hlater.branch hb, ?_⟩
        rw [called_cores_self]
        exact Core.started_call.mpr (.inr rfl)
      · exact hlater.fits (hrest task htask)
    · show (r.number :: bodies rest).Nodup
      have hframes := h.frames
      rw [hstack, bodies_notify] at hframes
      refine List.nodup_cons.mpr ⟨fun hmem => ?_, hframes⟩
      obtain ⟨b', c', r', htask, heq⟩ := mem_bodies.mp hmem
      obtain ⟨hr', _, hstarted⟩ := hrest _ htask
      obtain ⟨rfl, rfl⟩ := hapart c' r' hr' heq
      exact hwaits hstarted
    · exact h.holder k n n' (hn.of_called hstack hr hwaits hapart)
        (hn'.of_called hstack hr hwaits hapart)
    · rw [called_state]
      exact h.pending k n (hn.of_called hstack hr hwaits hapart)
    · rw [called_state]
      exact h.ahead k hk

/-- The `push_back` at the end of `then`. -/
theorem Inv.push (h : Inv s) {c : Id} {r : Request V E} {rest : List (Task V E)}
    (hstack : s.stack = .push c r :: rest) :
    Inv ((s.withStack rest).set c { s.cores c with requests := (s.cores c).requests ++ [r] }) ∧
      s.Later
        ((s.withStack rest).set c { s.cores c with requests := (s.cores c).requests ++ [r] }) := by
  obtain ⟨hr, hstarted⟩ : s.Fits (.push c r) := h.fits_head hstack
  have hinv : Inv (s.withStack rest) := h.suffix [.push c r] hstack fun b' c' r' hr' => by
    cases List.mem_singleton.mp hr'
  have hlater : (s.withStack rest).Later
      ((s.withStack rest).set c { s.cores c with requests := (s.cores c).requests ++ [r] }) :=
    Later.set (fun _ h => h) (fun _ h => h) (fun _ h => h)
  generalize hs : s.withStack rest = t at hinv hlater ⊢
  have hcores : s.cores = t.cores := by rw [← hs]; rfl
  rw [hcores] at hr hstarted hlater ⊢
  refine ⟨?_, ?_⟩
  · have hattached : ∀ c', ((t.set c { t.cores c with
        requests := (t.cores c).requests ++ [r] }).cores c').attached = (t.cores c').attached := by
      intro c'
      by_cases hc : c' = c
      · subst hc; rw [set_cores_self]
      · rw [set_cores_of_ne t hc]
    have hran : ∀ c', ((t.set c { t.cores c with
        requests := (t.cores c).requests ++ [r] }).cores c').ran = (t.cores c').ran := by
      intro c'
      by_cases hc : c' = c
      · subst hc; rw [set_cores_self]
      · rw [set_cores_of_ne t hc]
    have hstate : ∀ c', ((t.set c { t.cores c with
        requests := (t.cores c).requests ++ [r] }).cores c').state = (t.cores c').state := by
      intro c'
      by_cases hc : c' = c
      · subst hc; rw [set_cores_self]
      · rw [set_cores_of_ne t hc]
    have hholds : ∀ {k n : Nat}, (t.set c { t.cores c with
        requests := (t.cores c).requests ++ [r] }).Holds k n ↔ t.Holds k n :=
      Holds.congr hattached hran rfl
    refine ⟨fun c' => ?_, fun c' r' hr' => ?_, fun c₁ c₂ r₁ r₂ h₁ h₂ => ?_,
      fun task htask => hlater.fits (hinv.fits task htask), hinv.frames,
      fun k n n' hn hn' => hinv.holder k n n' (hholds.mp hn) (hholds.mp hn'),
      fun k n hn => ?_, fun k hk => ?_⟩
    · rw [set_stack]
      by_cases hc : c' = c
      · subst hc
        rw [set_cores_self]
        exact (hinv.ordered c').push hr hstarted
      · rw [set_cores_of_ne t hc]
        exact hinv.ordered c'
    · rw [hattached] at hr'
      exact hinv.fresh c' r' hr'
    · rw [hattached] at h₁ h₂
      exact hinv.apart c₁ c₂ r₁ r₂ h₁ h₂
    · rw [hstate]
      exact hinv.pending k n (hholds.mp hn)
    · rw [hstate]
      exact hinv.ahead k hk
  · refine Later.trans ?_ hlater
    rw [← hs]
    exact Later.withStack s rest

/-! ## `then` -/

/-- What a `then` does in either state of its core. -/
structure Attaches (s : System V E) (c : Id) (r : Request V E) (s' : System V E) : Prop where
  next : s'.next = s.next + 1
  self : (s'.cores c).attached = (s.cores c).attached ++ [r]
  others : ∀ c', c' ≠ c → s'.cores c' = s.cores c'
  outcome : (s'.cores c).outcome = (s.cores c).outcome
  started : ∀ r', r'.number ≠ r.number →
    ((s'.cores c).started r' ↔ (s.cores c).started r')
  bodies : ∀ n, n ≠ r.number → (n ∈ bodies s'.stack ↔ n ∈ bodies s.stack)

theorem attach_pending {c : Id} (h : (s.cores c).state = .pending) (k : Continuation V E) :
    s.attach c k = { s with next := s.next + 1 }.set c { s.cores c with
      attached := (s.cores c).attached ++ [(⟨s.next, k⟩ : Request V E)]
      requests := (s.cores c).requests ++ [(⟨s.next, k⟩ : Request V E)] } := by
  simp only [attach, h]

theorem Inv.number_lt (h : Inv s) {c : Id} {r : Request V E} (hr : (s.cores c).started r) :
    r.number < s.next := by
  cases hstate : (s.cores c).state with
  | pending => simp [Core.started, (h.ordered c).unsettled hstate] at hr
  | fulfilled | rejected =>
    obtain ⟨b, hb⟩ : ∃ b, (s.cores c).state.branch = some b := by rw [hstate]; exact ⟨_, rfl⟩
    obtain ⟨⟨n, b'⟩, hran, heq⟩ := List.mem_map.mp hr
    have hmem := ((h.ordered c).ran_isPrefix hb).subset hran
    obtain ⟨r', hr', heq'⟩ := List.mem_map.mp hmem
    have hlt := (h.fresh c r' hr').1
    rw [← heq, ← congrArg Prod.fst heq']
    exact hlt

theorem Inv.not_started (h : Inv s) (c : Id) (k : Continuation V E) :
    ¬ (s.cores c).started ⟨s.next, k⟩ := fun hstarted =>
  absurd (h.number_lt hstarted) (Nat.lt_irrefl _)

theorem attach_settled (h : Inv s) {c : Id} {b : Branch}
    (hb : (s.cores c).state.branch = some b) (k : Continuation V E) :
    s.attach c k = ({ s with next := s.next + 1 }.set c
      (Core.call { s.cores c with
        attached := (s.cores c).attached ++ [(⟨s.next, k⟩ : Request V E)] } b
          ⟨s.next, k⟩)).withStack (.body b c ⟨s.next, k⟩ :: .push c ⟨s.next, k⟩ :: .unlock c ::
          s.stack) := by
  have hguard : ∀ b', ¬ 1 ≤ (s.cores c).count b' ⟨s.next, k⟩ := fun b' hcount =>
    h.not_started c k (List.mem_map.mpr ⟨_, Core.count_pos_iff.mp hcount, rfl⟩)
  cases hstate : (s.cores c).state <;> rw [hstate] at hb <;> cases hb
  all_goals
    simp only [attach, hstate, start, set, withStack, Function.update_self, Function.update_idem]
    exact if_neg (hguard _)

theorem Inv.attaches (h : Inv s) (c : Id) (k : Continuation V E) :
    s.Attaches c ⟨s.next, k⟩ (s.attach c k) := by
  cases hbranch : (s.cores c).state.branch with
  | none =>
    have hstate : (s.cores c).state = .pending := by
      cases hstate : (s.cores c).state <;> rw [hstate] at hbranch <;> first | rfl | cases hbranch
    rw [attach_pending hstate]
    refine ⟨rfl, ?_, fun c' hc => set_cores_of_ne _ hc _, ?_, fun r' _ => ?_, fun n _ => Iff.rfl⟩
    all_goals rw [set_cores_self]
    · rfl
    · rfl
  | some b =>
    rw [attach_settled h hbranch]
    refine ⟨rfl, ?_, fun c' hc => set_cores_of_ne _ hc _, ?_, fun r' hr' => ?_, fun n hn => ?_⟩
    · rw [withStack_cores, set_cores_self]
      rfl
    · rw [withStack_cores, set_cores_self]
      rfl
    · rw [withStack_cores, set_cores_self, Core.started_call]
      exact or_iff_left hr'
    · rw [withStack_stack, bodies_body, bodies_push, bodies_unlock, List.mem_cons]
      exact or_iff_right hn

namespace Attaches

variable {s' : System V E} {c : Id} {r : Request V E}

theorem outcome_eq (h : s.Attaches c r s') (c' : Id) :
    (s'.cores c').outcome = (s.cores c').outcome := by
  by_cases hc : c' = c
  · subst hc
    exact h.outcome
  · rw [h.others c' hc]

theorem pending_iff (h : s.Attaches c r s') (c' : Id) :
    (s'.cores c').state = .pending ↔ (s.cores c').state = .pending := by
  rw [← Core.outcome_eq_none, ← Core.outcome_eq_none, h.outcome_eq]

theorem mem_attached (h : s.Attaches c r s') {c' : Id} {r' : Request V E}
    (hr' : r' ∈ (s'.cores c').attached) : r' ∈ (s.cores c').attached ∨ (c' = c ∧ r' = r) := by
  by_cases hc : c' = c
  · subst hc
    rw [h.self] at hr'
    rcases List.mem_append.mp hr' with hr' | hr'
    · exact .inl hr'
    · exact .inr ⟨rfl, List.mem_singleton.mp hr'⟩
  · rw [h.others c' hc] at hr'
    exact .inl hr'

/-- The only new holder is the new request. -/
theorem holds (h : s.Attaches c r s')
    (hnew : ∀ c', ∀ r' ∈ (s.cores c').attached, r'.number ≠ r.number) {k n : Nat}
    (hn : s'.Holds k n) : s.Holds k n ∨ (k = r.chain ∧ n = r.number) := by
  obtain ⟨c', r', hr', hlive, hk, hnumber⟩ := hn
  rcases h.mem_attached hr' with hr' | ⟨rfl, rfl⟩
  · have hne := hnew c' r' hr'
    refine .inl ⟨c', r', hr', ?_, hk, hnumber⟩
    rcases hlive with hlive | hlive
    · refine .inl fun hstarted => hlive ?_
      by_cases hc : c' = c
      · subst hc
        exact (h.started r' hne).mpr hstarted
      · rwa [h.others c' hc]
    · exact .inr ((h.bodies _ hne).mp hlive)
  · exact .inr ⟨hk.symm, hnumber.symm⟩

theorem later (h : s.Attaches c r s')
    (hstarted : ∀ r', (s.cores c).started r' → r'.number ≠ r.number) : s.Later s' := by
  refine ⟨fun c' r' hr' => ?_, fun c' r' hr' => ?_, fun c' o ho => (h.outcome_eq c').trans ho⟩
  · by_cases hc : c' = c
    · subst hc
      rw [h.self]
      exact List.mem_append_left _ hr'
    · rwa [h.others c' hc]
  · by_cases hc : c' = c
    · subst hc
      exact (h.started r' (hstarted r' hr')).mpr hr'
    · rwa [h.others c' hc]

end Attaches

/-- A continuation that can be attached: that of a `then`, or a `Chainer` for a chain that no
continuation is to settle. -/
def Attachable (s : System V E) : Continuation V E → Prop
  | .link _ _ => True
  | .chainer k => k < s.next ∧ (s.cores (.chain k)).state = .pending ∧ ∀ n, ¬ s.Holds k n

theorem Attachable.chain_le {k : Continuation V E} (h : s.Attachable k) :
    Request.chain ⟨s.next, k⟩ ≤ s.next := by
  cases k with
  | link => exact Nat.le_refl _
  | chainer k => exact Nat.le_of_lt h.1

theorem Attachable.pending (hinv : Inv s) {k : Continuation V E} (h : s.Attachable k) :
    (s.cores (.chain (Request.chain ⟨s.next, k⟩))).state = .pending := by
  cases k with
  | link => exact hinv.ahead _ (Nat.le_refl _)
  | chainer k => exact h.2.1

theorem Attachable.not_holds (hinv : Inv s) {k : Continuation V E} (h : s.Attachable k) (n : Nat) :
    ¬ s.Holds (Request.chain ⟨s.next, k⟩) n := by
  cases k with
  | link =>
    rintro ⟨c, r, hr, _, hk, _⟩
    exact absurd (hk ▸ (hinv.fresh c r hr).2) (Nat.lt_irrefl _)
  | chainer k => exact h.2.2 n

/-- `then`, on a Pending core or on one whose continuations have all run. -/
theorem Inv.attach (h : Inv s) {c : Id} {k : Continuation V E} (hk : s.Attachable k)
    (hready : (s.cores c).state ≠ .pending →
      ∀ r ∈ (s.cores c).requests, (s.cores c).started r) :
    Inv (s.attach c k) ∧ s.Later (s.attach c k) := by
  have hattaches := h.attaches c k
  have hnew : ∀ c', ∀ r' ∈ (s.cores c').attached, r'.number ≠ s.next := fun c' r' hr' =>
    Nat.ne_of_lt (h.fresh c' r' hr').1
  have hlater : s.Later (s.attach c k) :=
    hattaches.later fun r' hr' => Nat.ne_of_lt (h.number_lt hr')
  have hordered : ∀ c', c' ≠ c → ((s.attach c k).cores c').Ordered (queue c' s.stack) := by
    intro c' hc
    rw [hattaches.others c' hc]
    exact h.ordered c'
  -- the loops, the tasks and the callbacks, by the state of the core
  have hsection : (∀ c', ((s.attach c k).cores c').Ordered (queue c' (s.attach c k).stack)) ∧
      (∀ task ∈ (s.attach c k).stack, (s.attach c k).Fits task) ∧
      (bodies (s.attach c k).stack).Nodup := by
    cases hbranch : (s.cores c).state.branch with
    | none =>
      have hstate : (s.cores c).state = .pending := by
        cases hstate : (s.cores c).state <;> rw [hstate] at hbranch <;> first | rfl | cases hbranch
      have hstack : (s.attach c k).stack = s.stack := by rw [attach_pending hstate]; rfl
      rw [hstack]
      refine ⟨fun c' => ?_, fun task htask => hlater.fits (h.fits task htask), h.frames⟩
      by_cases hc : c' = c
      · subst hc
        rw [attach_pending hstate, set_cores_self]
        exact (h.ordered c').attach_pending hstate (hnew c')
      · exact hordered c' hc
    | some b =>
      have hstack : (s.attach c k).stack = .body b c ⟨s.next, k⟩ :: .push c ⟨s.next, k⟩ ::
          .unlock c :: s.stack := by rw [attach_settled h hbranch]; rfl
      have hself : (s.attach c k).cores c = Core.call
          { s.cores c with attached := (s.cores c).attached ++ [(⟨s.next, k⟩ : Request V E)] } b
          ⟨s.next, k⟩ := by
        rw [attach_settled h hbranch, withStack_cores, set_cores_self]
      have hmem : (⟨s.next, k⟩ : Request V E) ∈ ((s.attach c k).cores c).attached := by
        rw [hattaches.self]
        exact List.mem_append_right _ (List.mem_singleton_self _)
      have hstarted : ((s.attach c k).cores c).started ⟨s.next, k⟩ := by
        rw [hself]
        exact Core.started_call.mpr (.inr rfl)
      rw [hstack]
      refine ⟨fun c' => ?_, fun task htask => ?_, ?_⟩
      · rw [queue_body, queue_push, queue_unlock]
        by_cases hc : c' = c
        · subst hc
          have hall : (s.cores c').waiting = [] := by
            rw [← (h.ordered c').kept]
            exact Core.fresh_eq_nil.mpr (hready (Core.not_pending_of_branch hbranch))
          rw [hself]
          exact (h.ordered c').attach_settled hbranch hall (hnew c')
        · exact hordered c' hc
      · rcases List.mem_cons.mp htask with rfl | htask
        · exact ⟨hmem, hlater.branch hbranch, hstarted⟩
        rcases List.mem_cons.mp htask with rfl | htask
        · exact ⟨hmem, hstarted⟩
        rcases List.mem_cons.mp htask with rfl | htask
        · trivial
        · exact hlater.fits (h.fits task htask)
      · rw [bodies_body, bodies_push, bodies_unlock, List.nodup_cons]
        refine ⟨fun hmem => ?_, h.frames⟩
        obtain ⟨b', c', r', htask, heq⟩ := mem_bodies.mp hmem
        exact hnew c' r' (h.fits _ htask).1 heq
  refine ⟨⟨hsection.1, fun c' r' hr' => ?_, fun c₁ c₂ r₁ r₂ h₁ h₂ heq => ?_, hsection.2.1,
    hsection.2.2, fun k' n n' hn hn' => ?_, fun k' n hn => ?_, fun k' hk' => ?_⟩, hlater⟩
  · rw [hattaches.next]
    rcases hattaches.mem_attached hr' with hr' | ⟨_, rfl⟩
    · obtain ⟨hnumber, hchain⟩ := h.fresh c' r' hr'
      exact ⟨Nat.lt_succ_of_lt hnumber, Nat.lt_succ_of_lt hchain⟩
    · exact ⟨Nat.lt_succ_self _, Nat.lt_succ_of_le hk.chain_le⟩
  · rcases hattaches.mem_attached h₁ with h₁ | ⟨rfl, rfl⟩
    · rcases hattaches.mem_attached h₂ with h₂ | ⟨_, rfl⟩
      · exact h.apart c₁ c₂ r₁ r₂ h₁ h₂ heq
      · exact absurd heq (hnew c₁ r₁ h₁)
    · rcases hattaches.mem_attached h₂ with h₂ | ⟨rfl, _⟩
      · exact absurd heq.symm (hnew c₂ r₂ h₂)
      · rfl
  · rcases hattaches.holds hnew hn with hn | ⟨rfl, rfl⟩
    · rcases hattaches.holds hnew hn' with hn' | ⟨rfl, _⟩
      · exact h.holder k' n n' hn hn'
      · exact absurd hn (hk.not_holds h n)
    · rcases hattaches.holds hnew hn' with hn' | ⟨_, rfl⟩
      · exact absurd hn' (hk.not_holds h n')
      · rfl
  · refine (hattaches.pending_iff _).mpr ?_
    rcases hattaches.holds hnew hn with hn | ⟨rfl, _⟩
    · exact h.pending k' n hn
    · exact hk.pending h
  · rw [hattaches.next] at hk'
    exact (hattaches.pending_iff _).mpr (h.ahead k' (Nat.le_of_succ_le hk'))

/-! ## The end of a callback -/

theorem Inv.thrown (h : Inv s) (hspent : s.Spent) : Inv s.thrown ∧ s.Later s.thrown := by
  obtain ⟨ended, rest, hstack, hended, hthrown⟩ := s.thrown_eq
  rw [hthrown]
  exact ⟨h.suffix ended hstack (hspent ended rest hstack hended), Later.withStack s rest⟩

theorem Inv.fruitless (h : Inv s) {c : Id} {s' : System V E} (hs : s.Fruitless c s') :
    Inv s' ∧ s.Later s' := by
  cases hs with
  | same => exact ⟨h, Later.refl s⟩
  | again hb =>
    refine ⟨h.again hb, ?_⟩
    unfold System.settle
    rw [set_cores]
    exact Later.withStack s _
  | thrown hspent => exact h.thrown hspent

/-- What is known when a callback ends. -/
structure Ending (s : System V E) (c : Id) (r : Request V E) (o : Outcome V E)
    (rest : List (Task V E)) : Prop where
  inv : Inv (s.withStack rest)
  mem : r ∈ (s.cores c).attached
  started : (s.cores c).started r
  outcome : (s.cores c).outcome = some o
  free : ∀ n, ¬ (s.withStack rest).Holds r.chain n
  pending : (s.cores (.chain r.chain)).state = .pending
  chain_lt : r.chain < s.next

theorem Inv.ending (h : Inv s) {b : Branch} {c : Id} {r : Request V E} {rest : List (Task V E)}
    (hstack : s.stack = .body b c r :: rest) : ∃ o, o.branch = b ∧ s.Ending c r o rest := by
  obtain ⟨hr, hb, hstarted⟩ : s.Fits (.body b c r) := h.fits_head hstack
  have hheld : s.Holds r.chain r.number := .of_body hstack hr
  have hinv : Inv (s.withStack rest) := h.suffix [.body b c r] hstack fun b' c' r' hr' => by
    cases List.mem_singleton.mp hr'
  obtain ⟨o, ho, hbranch⟩ := Core.outcome_of_branch hb
  exact ⟨o, hbranch, hinv, hr, hstarted, ho, h.free hstack, h.pending _ _ hheld, (h.fresh c r hr).2⟩

/-- The `Chainer` of a callback that has returned a promise can be attached. -/
theorem Ending.attachable {c : Id} {r : Request V E} {o : Outcome V E} {rest : List (Task V E)}
    (h : s.Ending c r o rest) (hchain : r.chain = r.number) :
    (s.withStack rest).Attachable (.chainer r.number) := by
  rw [← hchain]
  exact ⟨h.chain_lt, h.pending, h.free⟩

theorem Ending.finish {c : Id} {r : Request V E} {o : Outcome V E} {rest : List (Task V E)}
    (h : s.Ending c r o rest) (hends : (s.withStack rest).Ends o.branch c r) :
    Inv ((s.withStack rest).finish o.branch c r) ∧
      s.Later ((s.withStack rest).finish o.branch c r) := by
  have hcases := finish_cases (s := s.withStack rest) h.outcome hends
  suffices hsuffices : Inv ((s.withStack rest).finish o.branch c r) ∧
      (s.withStack rest).Later ((s.withStack rest).finish o.branch c r) from
    ⟨hsuffices.1, (Later.withStack s rest).trans hsuffices.2⟩
  cases hverdict : r.continuation.verdict o with
  | settled o' =>
    rw [hverdict] at hcases
    refine ⟨h.inv.settle hcases h.pending fun k hk => ?_, hcases.later h.pending⟩
    cases hk
    exact ⟨h.chain_lt, h.free⟩
  | waits q =>
    rw [hverdict] at hcases
    obtain ⟨heq, hready, hchain⟩ := hcases
    rw [heq]
    exact h.inv.attach (h.attachable hchain) hready.2
  | stuck =>
    rw [hverdict] at hcases
    exact h.inv.fruitless hcases

/-! ## Steps and runs -/

theorem Inv.calls (h : Inv s) (l : List (Settle V E)) :
    Inv { s with calls := l } ∧ s.Later { s with calls := l } :=
  ⟨⟨h.ordered, h.fresh, h.apart, h.fits, h.frames, h.holder, h.pending, h.ahead⟩,
    ⟨fun _ _ h => h, fun _ _ h => h, fun _ _ h => h⟩⟩

/-- The section of a `Resolver` or a `Rejection`. -/
theorem Inv.enter (h : Inv s) (call : Settle V E)
    (hpending : (∀ n, call ≠ .resolve n .otherType) → (s.cores call.core).state = .pending) :
    Inv (s.enter call) ∧ s.Later (s.enter call) := by
  have hunlock := h.unlock call.core
  have hlater := Later.withStack s (.unlock call.core :: s.stack)
  have hsettle : ∀ {o s'}, (s.withStack (.unlock call.core :: s.stack)).Settles call.core o s' →
      (s.cores call.core).state = .pending → (∀ k, call.core ≠ .chain k) → Inv s' ∧ s.Later s' :=
    fun hsettles hstate hchain =>
      ⟨hunlock.settle hsettles hstate fun k hk => absurd hk (hchain k),
        hlater.trans (hsettles.later hstate)⟩
  cases call with
  | resolve n arg =>
    cases arg with
    | nothing =>
      exact hsettle (settles_fulfil _ _ _) (hpending fun _ heq => nomatch heq) fun _ hk => nomatch hk
    | value v =>
      exact hsettle (settles_fulfil _ _ _) (hpending fun _ heq => nomatch heq) fun _ hk => nomatch hk
    | otherType => exact ⟨h, Later.refl s⟩
  | reject n exc =>
    exact hsettle (settles_reject _ _ _) (hpending fun _ heq => nomatch heq) fun _ hk => nomatch hk

/-- One step. -/
theorem Inv.step (h : Inv s) {event : Event V E} (hsound : s.Sound event) :
    Inv (s.step event) ∧ s.Later (s.step event) := by
  have hsame : Inv s ∧ s.Later s := ⟨h, Later.refl s⟩
  cases event with
  | test call =>
    simp only [System.step]
    by_cases htest : s.test call
    · rw [if_pos htest]
      exact h.calls _
    · rw [if_neg htest]
      exact hsame
  | enter i =>
    simp only [System.step]
    cases hcall : s.calls[i]? with
    | none => exact hsame
    | some call =>
      dsimp only
      by_cases hopen : s.calling ∧ ¬ s.locked call.core
      · rw [if_pos hopen]
        obtain ⟨hinv, hlater⟩ := h.calls (s.calls.eraseIdx i)
        obtain ⟨hinv', hlater'⟩ := hinv.enter call (hsound hopen.1 call hcall).2
        exact ⟨hinv', hlater.trans hlater'⟩
      · rw [if_neg hopen]
        exact hsame
  | attach c resolve_ reject_ =>
    simp only [System.step]
    by_cases hopen : s.calling ∧ ¬ s.locked c
    · rw [if_pos hopen]
      exact h.attach trivial (hsound hopen.1).2
    · rw [if_neg hopen]
      exact hsame
  | run =>
    simp only [System.step]
    cases hstack : s.stack with
    | nil => exact hsame
    | cons task rest =>
      cases task with
      | notify b c r => exact h.start hstack
      | body b c r =>
        dsimp only
        split
        · exact hsame
        · obtain ⟨o, rfl, hending⟩ := h.ending hstack
          exact hending.finish (hsound _ c r rest hstack)
      | push c r => exact h.push hstack
      | unlock c =>
        refine ⟨h.suffix [.unlock c] hstack fun b' c' r' hr' => ?_, Later.withStack s rest⟩
        cases List.mem_singleton.mp hr'

/-- Before the program makes its first call: any promises, settled or not. -/
structure Initial (s : System V E) : Prop where
  next : s.next = 0
  stack : s.stack = []
  calls : s.calls = []
  chains : ∀ k, (s.cores (.chain k)).state = .pending
  requests : ∀ c, (s.cores c).requests = []
  attached : ∀ c, (s.cores c).attached = []
  ran : ∀ c, (s.cores c).ran = []

theorem Initial.inv (h : s.Initial) : Inv s where
  ordered c := by
    have hwaiting : (s.cores c).waiting = [] := by rw [Core.waiting, h.attached]; rfl
    refine ⟨?_, ?_, ?_, fun _ => h.ran c, fun b _ => ?_, fun b _ => ?_⟩
    · rw [h.requests]
      exact fun _ hr => absurd hr List.not_mem_nil
    · rw [h.requests, hwaiting]
      rfl
    · rw [h.attached]
      exact List.nodup_nil
    · rw [h.attached, h.ran, hwaiting]
      rfl
    · rw [hwaiting]
      exact List.nil_prefix
  fresh c r hr := by rw [h.attached] at hr; cases hr
  apart c c' r r' hr := by rw [h.attached] at hr; cases hr
  fits task htask := by rw [h.stack] at htask; cases htask
  frames := by rw [h.stack]; exact List.nodup_nil
  holder k n n' hn := by
    obtain ⟨c, r, hr, _⟩ := hn
    rw [h.attached] at hr
    cases hr
  pending k n hn := h.chains k
  ahead k _ := h.chains k

open Machine in
theorem Inv.run (h : Inv s) (events : List (Event V E)) (hsound : Always System.step Sound s events) :
    Inv (run s events) :=
  Always.inv (fun _ _ hinv hs => (hinv.step hs).1) events s h hsound

open Machine in
theorem Inv.later_run : ∀ (events : List (Event V E)) {s : System V E}, Inv s →
    Always System.step Sound s events → s.Later (Pistache.Async.run s events)
  | [], s, _, _ => Later.refl s
  | _ :: events, _, h, hsound =>
    (h.step hsound.1).2.trans (later_run events (h.step hsound.1).1 hsound.2)

end System

end Pistache.Async
