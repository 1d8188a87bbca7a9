import Pistache.Async.Settle

/-!
# Chains of then

A chain of promises is built by calling `then` on the promise of the last `then`.  Here is what
becomes of such a chain when its source and the promises that its callbacks have returned are
settled.

* `Tells` — the invariant: the chain of each continuation that has run its course is as the
  verdict says, and a chain that is stuck has nobody left to settle it.
* `chain_outcome` — the outcome of one promise of a chain, between two sections.
* `chain_settled` — over all runs and chains: every promise is settled as it should be exactly
  when no continuation of the chain is one that gets stuck.
-/

set_option autoImplicit false

namespace Pistache.Async

variable {V E : Type}

namespace System

variable (s : System V E)

/-! ## What becomes of a chain -/

/-- The chain exists, is Pending, and no continuation is to settle it. -/
def Abandoned (k : Nat) : Prop :=
  k < s.next ∧ (s.cores (.chain k)).state = .pending ∧ ∀ n, ¬ s.Holds k n

/-- The continuation has run its course, and its chain is as the verdict says. -/
def Done (c : Id) (r : Request V E) : Prop :=
  ∃ o, (s.cores c).outcome = some o ∧
    match r.continuation.verdict o with
    | .settled o' => (s.cores (.chain r.chain)).outcome = some o'
    | .waits q => ∃ r' ∈ (s.cores q).attached, r'.continuation = .chainer r.chain
    | .stuck => s.Abandoned r.chain

def Tells : Prop :=
  ∀ c, ∀ r ∈ (s.cores c).attached, ¬ s.Live c r → s.Done c r

variable {s}

theorem Done.mono {s' : System V E} {c : Id} {r : Request V E} (h : s.Done c r)
    (hlater : s.Later s') (hkeeps : s.Abandoned r.chain → s'.Abandoned r.chain) : s'.Done c r := by
  obtain ⟨o, ho, hverdict⟩ := h
  refine ⟨o, hlater.outcome c o ho, ?_⟩
  cases hv : r.continuation.verdict o with
  | settled o' =>
    rw [hv] at hverdict
    exact hlater.outcome _ o' hverdict
  | waits q =>
    rw [hv] at hverdict
    obtain ⟨r', hr', hk⟩ := hverdict
    exact ⟨r', hlater.attached q r' hr', hk⟩
  | stuck =>
    rw [hv] at hverdict
    exact hkeeps hverdict

/-- A step that ends no callback, and settles no other chain than that of `c`. -/
structure Advances (c : Id) (s s' : System V E) : Prop where
  later : s.Later s'
  live : ∀ c', ∀ r ∈ (s'.cores c').attached, ¬ s'.Live c' r →
    r ∈ (s.cores c').attached ∧ ¬ s.Live c' r
  keeps : ∀ k, .chain k ≠ c → s.Abandoned k → s'.Abandoned k

theorem Tells.advance {s' : System V E} {n : Nat} (h : s.Tells)
    (hadvances : Advances (.promise n) s s') : s'.Tells := by
  intro c r hr hlive
  obtain ⟨hr', hlive'⟩ := hadvances.live c r hr hlive
  exact (h c r hr' hlive').mono hadvances.later (hadvances.keeps _ nofun)

namespace Advances

variable {s' s'' : System V E} {c : Id}

theorem trans (h : Advances c s s') (h' : Advances c s' s'') : Advances c s s'' where
  later := h.later.trans h'.later
  live c' r hr hlive := by
    obtain ⟨hr', hlive'⟩ := h'.live c' r hr hlive
    exact h.live c' r hr' hlive'
  keeps k hk hab := h'.keeps k hk (h.keeps k hk hab)

/-- What is attached, what has run and which callbacks are running stay the same. -/
theorem of_same (c : Id) (hlater : s.Later s') (hnext : s'.next = s.next)
    (hattached : ∀ c, (s'.cores c).attached = (s.cores c).attached)
    (hran : ∀ c, (s'.cores c).ran = (s.cores c).ran) (hbodies : bodies s'.stack = bodies s.stack)
    (hpending : ∀ k, .chain k ≠ c → (s.cores (.chain k)).state = .pending →
      (s'.cores (.chain k)).state = .pending) : Advances c s s' where
  later := hlater
  live c' r hr hlive := by
    rw [hattached] at hr
    refine ⟨hr, fun hlive' => hlive ?_⟩
    rw [Live, Core.started, hran, hbodies]
    exact hlive'
  keeps k hk hab := by
    refine ⟨hnext ▸ hab.1, hpending k hk hab.2.1, fun n hn => hab.2.2 n ?_⟩
    exact (Holds.congr hattached hran hbodies).mp hn

theorem withStack (c : Id) {l : List (Task V E)} (hbodies : bodies l = bodies s.stack) :
    Advances c s (s.withStack l) :=
  of_same c (Later.withStack s l) rfl (fun _ => rfl) (fun _ => rfl) hbodies fun _ _ hp => hp

theorem settles {o : Outcome V E} (h : s.Settles c o s') (hpending : (s.cores c).state = .pending) :
    Advances c s s' := by
  refine of_same c (h.later hpending) h.next h.attached h.ran ?_ fun k hk hp => ?_
  · rw [h.stack, bodies_append, bodies_map_notify, List.nil_append]
  · rwa [h.cores_of_ne hk]

end Advances

/-! ## Steps -/

theorem Inv.advances_start (h : Inv s) (c₀ : Id) {b : Branch} {c : Id} {r : Request V E}
    {rest : List (Task V E)} (hstack : s.stack = .notify b c r :: rest) :
    Advances c₀ s ((s.withStack rest).start b c r) := by
  obtain ⟨hr, hb⟩ : s.Fits (.notify b c r) := h.fits_head hstack
  by_cases hwaits : (s.cores c).started r
  · rw [start_of_started h hb hwaits]
    refine Advances.withStack c₀ ?_
    rw [hstack, bodies_notify]
  · rw [start_of_waits h hb hwaits]
    have hapart : ∀ c' r', r' ∈ (s.cores c').attached → r'.number = r.number → c' = c ∧ r' = r :=
      fun c' r' hr' heq => h.same_request hr' hr heq
    refine ⟨later_called s b c r rest, fun c' r' hr' hlive => ?_, fun k _ hab => ?_⟩
    · rw [called_attached] at hr'
      refine ⟨hr', fun hlive' => hlive ?_⟩
      by_cases heq : r'.number = r.number
      · refine .inr ?_
        rw [heq]
        exact List.mem_cons_self ..
      rcases hlive' with hlive' | hlive'
      · refine .inl fun hstarted => hlive' ?_
        by_cases hc : c' = c
        · subst hc
          rw [called_cores_self, Core.started_call] at hstarted
          exact hstarted.resolve_right heq
        · rwa [called_cores_of_ne hc] at hstarted
      · rw [hstack, bodies_notify] at hlive'
        exact .inr (List.mem_cons_of_mem _ hlive')
    · refine ⟨hab.1, ?_, fun n hn => hab.2.2 n (hn.of_called hstack hr hwaits hapart)⟩
      rw [called_state]
      exact hab.2.1

/-- The new continuation has still its course to run. -/
theorem Inv.attach_live (h : Inv s) (c : Id) (k : Continuation V E) :
    (s.attach c k).Live c ⟨s.next, k⟩ := by
  cases hbranch : (s.cores c).state.branch with
  | none =>
    have hstate : (s.cores c).state = .pending := by
      cases hstate : (s.cores c).state <;> rw [hstate] at hbranch <;> first | rfl | cases hbranch
    refine .inl ?_
    rw [attach_pending hstate, set_cores_self]
    exact h.not_started c k
  | some b =>
    refine .inr ?_
    rw [attach_settled h hbranch, withStack_stack]
    exact List.mem_cons_self ..

theorem Inv.advances_attach (h : Inv s) (c₀ c : Id) (k : Continuation V E)
    (hk : ∀ k', k = .chainer k' → c₀ = .chain k') : Advances c₀ s (s.attach c k) := by
  have hattaches := h.attaches c k
  have hnew : ∀ c', ∀ r' ∈ (s.cores c').attached, r'.number ≠ s.next := fun c' r' hr' =>
    Nat.ne_of_lt (h.fresh c' r' hr').1
  have hlater : s.Later (s.attach c k) :=
    hattaches.later fun r' hr' => Nat.ne_of_lt (h.number_lt hr')
  refine ⟨hlater, fun c' r' hr' hlive => ?_, fun k' hk' hab => ?_⟩
  · rcases hattaches.mem_attached hr' with hr' | ⟨rfl, rfl⟩
    · have hne := hnew c' r' hr'
      refine ⟨hr', fun hlive' => hlive ?_⟩
      rcases hlive' with hlive' | hlive'
      · refine .inl fun hstarted => hlive' ?_
        by_cases hc : c' = c
        · subst hc
          exact (hattaches.started r' hne).mp hstarted
        · rwa [hattaches.others c' hc] at hstarted
      · exact .inr ((hattaches.bodies _ hne).mpr hlive')
    · exact absurd (h.attach_live c' k) hlive
  · refine ⟨?_, (hattaches.pending_iff _).mpr hab.2.1, fun n hn => ?_⟩
    · rw [hattaches.next]
      exact Nat.lt_succ_of_lt hab.1
    · rcases hattaches.holds hnew hn with hn | ⟨heq, _⟩
      · exact hab.2.2 n hn
      · cases k with
        | link => exact absurd (heq ▸ hab.1) (Nat.lt_irrefl _)
        | chainer k => exact hk' (by rw [hk k rfl, heq]; rfl)

theorem Inv.advances_push (h : Inv s) (c₀ : Id) {c : Id} {r : Request V E} {rest : List (Task V E)}
    (hstack : s.stack = .push c r :: rest) : Advances c₀ s
      ((s.withStack rest).set c { s.cores c with requests := (s.cores c).requests ++ [r] }) := by
  have hcore : ∀ c', (((s.withStack rest).set c { s.cores c with
      requests := (s.cores c).requests ++ [r] }).cores c').attached = (s.cores c').attached ∧
      (((s.withStack rest).set c { s.cores c with
      requests := (s.cores c).requests ++ [r] }).cores c').ran = (s.cores c').ran ∧
      (((s.withStack rest).set c { s.cores c with
      requests := (s.cores c).requests ++ [r] }).cores c').state = (s.cores c').state := by
    intro c'
    by_cases hc : c' = c
    · subst hc; rw [set_cores_self]; exact ⟨rfl, rfl, rfl⟩
    · rw [set_cores_of_ne _ hc]; exact ⟨rfl, rfl, rfl⟩
  refine Advances.of_same c₀ (h.push hstack).2 rfl (fun c' => (hcore c').1)
    (fun c' => (hcore c').2.1) ?_ fun k _ hp => (hcore _).2.2.trans hp
  rw [hstack, bodies_push]
  rfl

theorem Inv.advances_fruitless (c₀ : Id) {c : Id} {s' : System V E} (hs : s.Fruitless c s') :
    Advances c₀ s s' := by
  cases hs with
  | same => exact Advances.withStack c₀ rfl
  | again _ =>
    unfold System.settle
    rw [set_cores]
    refine Advances.withStack c₀ ?_
    rw [bodies_append, bodies_map_notify, List.nil_append]
  | thrown _ =>
    obtain ⟨ended, rest, hstack, hended, hthrown⟩ := s.thrown_eq
    rw [hthrown]
    refine Advances.withStack c₀ ?_
    rw [hstack, bodies_append, hended, List.nil_append]

/-- The end of a callback. -/
theorem Inv.tells_finish (h : Inv s) (htells : s.Tells) {b : Branch} {c : Id} {r : Request V E}
    {rest : List (Task V E)} (hstack : s.stack = .body b c r :: rest)
    (hends : (s.withStack rest).Ends b c r) : ((s.withStack rest).finish b c r).Tells := by
  obtain ⟨o, rfl, hending⟩ := h.ending hstack
  have hcases := finish_cases (s := s.withStack rest) hending.outcome hends
  have hlater := (hending.finish hends).2
  have hheld : s.Holds r.chain r.number := .of_body hstack hending.mem
  -- the others go on as before, and the callback has done what its verdict says
  suffices hsuffices : Advances (.chain r.chain) (s.withStack rest)
      ((s.withStack rest).finish o.branch c r) ∧
      ((s.withStack rest).finish o.branch c r).Done c r by
    intro c' r' hr' hlive
    obtain ⟨hr'', hlive'⟩ := hsuffices.1.live c' r' hr' hlive
    by_cases heq : r'.number = r.number
    · obtain ⟨rfl, rfl⟩ := h.same_request hr'' hending.mem heq
      exact hsuffices.2
    · have hnot : ¬ s.Live c' r' := fun hlive'' => hlive' <| hlive''.imp id fun hmem => by
        rw [hstack, bodies_body] at hmem
        exact (List.mem_cons.mp hmem).resolve_left heq
      refine (htells c' r' hr'' hnot).mono hlater fun hab => ?_
      have hne : Id.chain r'.chain ≠ .chain r.chain := fun hk => by
        rw [Id.chain.inj hk] at hab
        exact hab.2.2 r.number hheld
      exact hsuffices.1.keeps _ hne
        ⟨hab.1, hab.2.1, fun n hn => hab.2.2 n (hn.suffix [_] hstack)⟩
  cases hverdict : r.continuation.verdict o with
  | settled o' =>
    rw [hverdict] at hcases
    refine ⟨Advances.settles hcases hending.pending, o, hlater.outcome c o hending.outcome, ?_⟩
    rw [hverdict]
    exact hcases.outcome
  | waits q =>
    rw [hverdict] at hcases
    obtain ⟨heq, _, hchain⟩ := hcases
    have houtcome := hlater.outcome c o hending.outcome
    rw [heq] at houtcome ⊢
    refine ⟨hending.inv.advances_attach _ q _ fun k hk => ?_, o, houtcome, ?_⟩
    · cases hk
      rw [hchain]
    · rw [hverdict]
      refine ⟨⟨(s.withStack rest).next, .chainer r.number⟩, ?_, by rw [hchain]⟩
      rw [(hending.inv.attaches q (.chainer r.number)).self]
      exact List.mem_append_right _ (List.mem_singleton_self _)
  | stuck =>
    rw [hverdict] at hcases
    refine ⟨Inv.advances_fruitless _ hcases, o, hlater.outcome c o hending.outcome, ?_⟩
    rw [hverdict]
    exact (Inv.advances_fruitless (.promise 0) hcases).keeps _ nofun
      ⟨hending.chain_lt, hending.pending, hending.free⟩

/-- The section of a `Resolver` or a `Rejection`. -/
theorem advances_enter (call : Settle V E)
    (hpending : (∀ n, call ≠ .resolve n .otherType) → (s.cores call.core).state = .pending) :
    ∃ n, Advances (.promise n) s (s.enter call) := by
  have hunlock : ∀ n, Advances (.promise n) s (s.withStack (.unlock call.core :: s.stack)) :=
    fun n => Advances.withStack _ (bodies_unlock _ _)
  cases call with
  | resolve n arg =>
    cases arg with
    | nothing =>
      exact ⟨n, (hunlock n).trans (Advances.settles (settles_fulfil _ _ _)
        (hpending fun _ heq => nomatch heq))⟩
    | value v =>
      exact ⟨n, (hunlock n).trans (Advances.settles (settles_fulfil _ _ _)
        (hpending fun _ heq => nomatch heq))⟩
    | otherType => exact ⟨0, Advances.withStack (s := s) _ rfl⟩
  | reject n exc =>
    exact ⟨n, (hunlock n).trans (Advances.settles (settles_reject _ _ _)
      (hpending fun _ heq => nomatch heq))⟩

theorem advances_calls (n : Nat) (l : List (Settle V E)) :
    Advances (.promise n) s { s with calls := l } :=
  Advances.of_same _ ⟨fun _ _ h => h, fun _ _ h => h, fun _ _ h => h⟩ rfl (fun _ => rfl)
    (fun _ => rfl) rfl fun _ _ hp => hp

/-- One step. -/
theorem Inv.tells_step (h : Inv s) (htells : s.Tells) {event : Event V E}
    (hsound : s.Sound event) : (s.step event).Tells := by
  cases event with
  | test call =>
    simp only [System.step]
    by_cases htest : s.test call
    · rw [if_pos htest]
      exact htells.advance (advances_calls 0 _)
    · rwa [if_neg htest]
  | enter i =>
    simp only [System.step]
    cases hcall : s.calls[i]? with
    | none => exact htells
    | some call =>
      dsimp only
      by_cases hopen : s.calling ∧ ¬ s.locked call.core
      · rw [if_pos hopen]
        obtain ⟨n, hadvances⟩ := advances_enter (s := { s with calls := s.calls.eraseIdx i }) call
          (hsound hopen.1 call hcall).2
        exact htells.advance ((advances_calls n _).trans hadvances)
      · rwa [if_neg hopen]
  | attach c resolve_ reject_ =>
    simp only [System.step]
    by_cases hopen : s.calling ∧ ¬ s.locked c
    · rw [if_pos hopen]
      exact htells.advance (h.advances_attach (.promise 0) c _ fun _ hk => by cases hk)
    · rwa [if_neg hopen]
  | run =>
    simp only [System.step]
    cases hstack : s.stack with
    | nil => exact htells
    | cons task rest =>
      cases task with
      | notify b c r => exact htells.advance (h.advances_start (.promise 0) hstack)
      | body b c r =>
        dsimp only
        split
        · exact htells
        · exact h.tells_finish htells hstack (hsound b c r rest hstack)
      | push c r => exact htells.advance (h.advances_push (.promise 0) hstack)
      | unlock c =>
        refine htells.advance (Advances.withStack (.promise 0) ?_)
        rw [hstack, bodies_unlock]

theorem Initial.tells (h : s.Initial) : s.Tells := by
  intro c r hr
  rw [h.attached] at hr
  cases hr

open Machine in
theorem Inv.tells_run (h : Inv s) (htells : s.Tells) (events : List (Event V E))
    (hsound : Always System.step Sound s events) : (Async.run s events).Tells := by
  have hstep : ∀ (t : System V E) event, Inv t ∧ t.Tells → t.Sound event →
      Inv (t.step event) ∧ (t.step event).Tells :=
    fun t event hinv hs => ⟨(hinv.1.step hs).1, hinv.1.tells_step hinv.2 hs⟩
  exact (Always.inv hstep events s ⟨h, htells⟩ hsound).2

/-! ## One promise of a chain -/

/-- Between two sections a continuation of a settled core has run its course. -/
theorem Inv.not_live (h : Inv s) (hstack : s.stack = []) {c : Id} {r : Request V E}
    {o : Outcome V E} (hr : r ∈ (s.cores c).attached) (ho : (s.cores c).outcome = some o) :
    ¬ s.Live c r := by
  have hordered := h.ordered c
  rw [hstack] at hordered
  have hran := hordered.ran_all (Core.branch_of_outcome ho)
  rintro (hwaits | hrunning)
  · refine hwaits ?_
    rw [Core.started, hran, List.map_map]
    exact List.mem_map_of_mem hr
  · rw [hstack] at hrunning
    cases hrunning

/-- **One promise of a chain**, between two sections: it has the outcome that the verdict gives
it, that of the promise which the callback returned, or none. -/
theorem Inv.chain_outcome (h : Inv s) (htells : s.Tells) (hstack : s.stack = []) {c : Id}
    {r : Request V E} {o : Outcome V E} (hr : r ∈ (s.cores c).attached)
    (ho : (s.cores c).outcome = some o) :
    (s.cores (.chain r.chain)).outcome =
      match r.continuation.verdict o with
      | .settled o' => some o'
      | .waits q => (s.cores q).outcome
      | .stuck => none := by
  obtain ⟨o₁, ho₁, hverdict⟩ := htells c r hr (h.not_live hstack hr ho)
  cases Option.some.inj (ho₁.symm.trans ho)
  cases hv : r.continuation.verdict o with
  | settled o' =>
    rw [hv] at hverdict
    exact hverdict
  | stuck =>
    rw [hv] at hverdict
    exact Core.outcome_eq_none.mpr hverdict.2.1
  | waits q =>
    rw [hv] at hverdict
    obtain ⟨r', hr', hk⟩ := hverdict
    have hchain : r'.chain = r.chain := by rw [Request.chain, hk]
    dsimp only
    cases hq : (s.cores q).outcome with
    | none =>
      -- the `Chainer` has not been called, so the chain is still Pending
      have hran := (h.ordered q).unsettled (Core.outcome_eq_none.mp hq)
      have hlive : s.Live q r' := .inl (by simp [Core.started, hran])
      exact Core.outcome_eq_none.mpr (h.pending _ _ ⟨q, r', hr', hlive, hchain, rfl⟩)
    | some o' =>
      obtain ⟨o₂, ho₂, hdone⟩ := htells q r' hr' (h.not_live hstack hr' hq)
      cases Option.some.inj (ho₂.symm.trans hq)
      rw [hk] at hdone
      rwa [← hchain]

/-! ## Whole chains -/

/-- Each continuation of the list was attached to the promise of the one before it. -/
def Chained (s : System V E) : Id → List (Request V E) → Prop
  | _, [] => True
  | c, r :: rs => r ∈ (s.cores c).attached ∧
      (∃ resolve_ reject_, r.continuation = .link resolve_ reject_) ∧
      s.Chained (.chain r.number) rs

/-- The outcome `o'` is the one that is due to the promise of a `then` whose source has the
outcome `o`: the value of the callback, or nothing, or the outcome of the promise it returned;
the exception that it or the reject function throws, or the one passed on.  A reject function
that returns leaves any outcome open. -/
def Due (s : System V E) : Continuation V E → Outcome V E → Outcome V E → Prop
  | .link (.value _ f) _, .fulfilled v, o' =>
    match f v with
    | .ok w => o' = .fulfilled (some w)
    | .error e => o' = .rejected (some e)
  | .link (.nothing f) _, .fulfilled v, o' =>
    match f v with
    | .ok _ => o' = .fulfilled none
    | .error e => o' = .rejected (some e)
  | .link (.promise _ f) _, .fulfilled v, o' =>
    match f v with
    | .ok q => (s.cores q).outcome = some o'
    | .error e => o' = .rejected (some e)
  | .link _ reject_, .rejected e, o' =>
    match reject_ e with
    | .rethrows => o' = .rejected e
    | .throws e' => o' = .rejected (some e')
    | .returns => True
  | .chainer _, o, o' => o' = o

/-- Every promise of the chain is settled, with the outcome that is due. -/
def Kept (s : System V E) : Outcome V E → List (Request V E) → Prop
  | _, [] => True
  | o, r :: rs => ∃ o', (s.cores (.chain r.number)).outcome = some o' ∧
      s.Due r.continuation o o' ∧ s.Kept o' rs

/-- The promises that the callbacks of the chain have returned are settled. -/
def Returned (s : System V E) : Outcome V E → List (Request V E) → Prop
  | _, [] => True
  | o, r :: rs =>
    match r.continuation.verdict o with
    | .settled o' => s.Returned o' rs
    | .waits q => ∃ o', (s.cores q).outcome = some o' ∧ s.Returned o' rs
    | .stuck => True

/-- No continuation of the chain is one that gets stuck: a callback that is called returns a
value or a promise, and a reject function that is called rethrows. -/
def Passes (s : System V E) : Outcome V E → List (Request V E) → Prop
  | _, [] => True
  | o, r :: rs =>
    match r.continuation.verdict o with
    | .settled o' => s.Passes o' rs
    | .waits q => ∀ o', (s.cores q).outcome = some o' → s.Passes o' rs
    | .stuck => False

theorem due_of_settled {k : Continuation V E} {o o' : Outcome V E}
    (h : k.verdict o = .settled o') : s.Due k o o' := by
  cases k with
  | chainer _ => cases h; rfl
  | link resolve_ reject_ =>
    cases o with
    | fulfilled v =>
      cases resolve_ with
      | value leaves f =>
        simp only [Continuation.verdict] at h
        simp only [Due]
        cases hf : f v <;> rw [hf] at h <;> cases h
        rfl
      | nothing f => cases h
      | promise leaves f =>
        simp only [Continuation.verdict] at h
        cases hf : f v <;> rw [hf] at h <;> cases h
    | rejected e =>
      simp only [Continuation.verdict] at h
      simp only [Due]
      cases hreject : reject_ e <;> rw [hreject] at h <;> cases h
      rfl

theorem due_of_waits {k : Continuation V E} {o o' : Outcome V E} {q : Id}
    (h : k.verdict o = .waits q) (hq : (s.cores q).outcome = some o') : s.Due k o o' := by
  cases k with
  | chainer _ => cases h
  | link resolve_ reject_ =>
    cases o with
    | fulfilled v =>
      cases resolve_ with
      | value leaves f =>
        simp only [Continuation.verdict] at h
        cases hf : f v <;> rw [hf] at h <;> cases h
      | nothing f => cases h
      | promise leaves f =>
        simp only [Continuation.verdict] at h
        simp only [Due]
        cases hf : f v <;> rw [hf] at h <;> cases h
        exact hq
    | rejected e =>
      simp only [Continuation.verdict] at h
      cases hreject : reject_ e <;> rw [hreject] at h <;> cases h

theorem Inv.kept_iff (h : Inv s) (htells : s.Tells) (hstack : s.stack = []) :
    ∀ (rs : List (Request V E)) {c : Id} {o : Outcome V E}, s.Chained c rs →
      (s.cores c).outcome = some o → s.Returned o rs → (s.Kept o rs ↔ s.Passes o rs)
  | [], _, _, _, _, _ => Iff.rfl
  | r :: rs, c, o, ⟨hr, ⟨resolve_, reject_, hlink⟩, hchained⟩, ho, hreturned => by
    have hchain : r.chain = r.number := by rw [Request.chain, hlink]
    have houtcome := h.chain_outcome htells hstack hr ho
    rw [hchain] at houtcome
    -- once the promise of `r` has an outcome, the rest of the chain is as long as its own
    have hrest : ∀ o', (s.cores (.chain r.number)).outcome = some o' →
        s.Due r.continuation o o' → s.Returned o' rs →
        (s.Kept o (r :: rs) ↔ s.Passes o' rs) := by
      intro o' ho' hdue hreturned'
      rw [← kept_iff h htells hstack rs hchained ho' hreturned']
      constructor
      · rintro ⟨o'', ho'', _, hkept⟩
        cases Option.some.inj (ho''.symm.trans ho')
        exact hkept
      · exact fun hkept => ⟨o', ho', hdue, hkept⟩
    cases hv : r.continuation.verdict o with
    | settled o' =>
      rw [hv] at houtcome
      rw [Returned, hv] at hreturned
      rw [Passes, hv]
      exact hrest o' houtcome (due_of_settled hv) hreturned
    | waits q =>
      rw [hv] at houtcome
      rw [Returned, hv] at hreturned
      obtain ⟨o', hq, hreturned'⟩ := hreturned
      rw [Passes, hv, hrest o' (houtcome.trans hq) (due_of_waits hv hq) hreturned']
      constructor
      · intro hpasses o'' ho''
        cases Option.some.inj (ho''.symm.trans hq)
        exact hpasses
      · exact fun hpasses => hpasses o' hq
    | stuck =>
      rw [hv] at houtcome
      rw [Passes, hv]
      refine iff_of_false ?_ not_false
      rintro ⟨o', ho', _⟩
      rw [houtcome] at ho'
      cases ho'

/-- `then`, the settlement of the promise, and the section up to its end. -/
def once (resolve_ : ResolveFunc Nat Nat) (reject_ : Option Nat → Handled Nat)
    (call : Settle Nat Nat) : System Nat Nat :=
  run unsettled [.attach (.promise 0) resolve_ reject_, .test call, .enter 0, .run, .run, .run]

end System

end Pistache.Async
