import Pistache.Lib.Loop
import Pistache.Lib.Replay

/-!
# Steps over an input that arrives in pieces

A `Step` works on a state and the input received so far, and gives a result, a new state and
the rest of the input.  One of the results, `again`, says that more input is needed; the step
is then called again, with its new state, when the rest has grown.

* `Settles` — a result other than `again` does not depend on what arrives later.
* `Resumes` — after `again` the next call does what one call with all of the input had done.
* `Emitting.incremental` — a step that emits replayable updates and goes back to its start
  unless it has finished settles and resumes.
* `chain_settles`, `chain_resumes` — so does a chain of such steps.
* `feedAll_eq` — then the pieces in which the input arrives do not matter.
-/

set_option autoImplicit false

namespace Resumable

open Replay

variable {ρ σ α ι : Type}

/-- What one call of a step gives. -/
@[ext] structure Out (ρ σ α : Type) where
  result : ρ
  state : σ
  rest : List α

/-- The same with more input behind the rest. -/
def Out.more (o : Out ρ σ α) (z : List α) : Out ρ σ α := { o with rest := o.rest ++ z }

@[simp] theorem Out.more_result (o : Out ρ σ α) (z : List α) : (o.more z).result = o.result := rfl
@[simp] theorem Out.more_state (o : Out ρ σ α) (z : List α) : (o.more z).state = o.state := rfl
@[simp] theorem Out.more_rest (o : Out ρ σ α) (z : List α) : (o.more z).rest = o.rest ++ z := rfl
@[simp] theorem Out.more_mk (r : ρ) (s : σ) (xs z : List α) :
    (Out.mk r s xs).more z = ⟨r, s, xs ++ z⟩ := rfl

abbrev Step (ρ σ α : Type) := σ → List α → Out ρ σ α

/-- From the states that are `ok`, what the step has come to stays when more arrives. -/
def Settles (again : ρ) (ok : σ → Prop) (step : Step ρ σ α) : Prop :=
  ∀ s xs, ok s → (step s xs).result ≠ again → ∀ z, step s (xs ++ z) = (step s xs).more z

/-- The step resumes where it has come from one state that is `ok` to another. -/
def Resumes (again : ρ) (ok : σ → Prop) (step : Step ρ σ α) : Prop :=
  ∀ s xs, ok s → (step s xs).result = again → ok (step s xs).state →
    ∀ z, step (step s xs).state ((step s xs).rest ++ z) = step s (xs ++ z)

/-- The step only moves forward in its input. -/
def Forward (step : Step ρ σ α) : Prop := ∀ s xs, (step s xs).rest <:+ xs

/-! ## Combining steps -/

section Combine

variable [DecidableEq ρ] (next : ρ)

/-- Run `f`, and `g` where `f` has come to `next`. -/
def andThen (f g : Step ρ σ α) : Step ρ σ α := fun s xs =>
  let o := f s xs
  if o.result = next then g o.state o.rest else o

/-- Go back to the start of the input unless the step has come to `next`. -/
def revert (f : Step ρ σ α) : Step ρ σ α := fun s xs =>
  let o := f s xs
  if o.result = next then o else { o with rest := xs }

theorem andThen_next {f g : Step ρ σ α} {s : σ} {xs : List α}
    (h : (andThen next f g s xs).result = next) :
    (f s xs).result = next ∧ andThen next f g s xs = g (f s xs).state (f s xs).rest := by
  unfold andThen at h ⊢
  dsimp only at h ⊢
  by_cases hf : (f s xs).result = next
  · rw [if_pos hf]
    exact ⟨hf, rfl⟩
  · rw [if_neg hf] at h
    exact absurd h hf

theorem revert_result (f : Step ρ σ α) (s : σ) (xs : List α) :
    (revert next f s xs).result = (f s xs).result := by
  unfold revert
  dsimp only
  by_cases hr : (f s xs).result = next
  · rw [if_pos hr]
  · rw [if_neg hr]

theorem revert_state (f : Step ρ σ α) (s : σ) (xs : List α) :
    (revert next f s xs).state = (f s xs).state := by
  unfold revert
  dsimp only
  by_cases hr : (f s xs).result = next
  · rw [if_pos hr]
  · rw [if_neg hr]

theorem revert_next {f : Step ρ σ α} {s : σ} {xs : List α} (h : (f s xs).result = next) :
    revert next f s xs = f s xs := if_pos h

theorem revert_rest {f : Step ρ σ α} {s : σ} {xs : List α}
    (h : (revert next f s xs).result ≠ next) : (revert next f s xs).rest = xs := by
  unfold revert at h ⊢
  dsimp only at h ⊢
  split
  · rename_i hr
    simp [hr] at h
  · rfl

theorem revert_forward {f : Step ρ σ α} (hf : Forward f) : Forward (revert next f) := by
  intro s xs
  unfold revert
  dsimp only
  split
  · exact hf s xs
  · exact List.suffix_refl xs

theorem andThen_forward {f g : Step ρ σ α} (hf : Forward f) (hg : Forward g) :
    Forward (andThen next f g) := by
  intro s xs
  unfold andThen
  dsimp only
  split
  · exact (hg _ _).trans (hf s xs)
  · exact hf s xs

omit [DecidableEq ρ] in
/-- A loop whose body only moves forward. -/
theorem run_forward {body : Loop.Body σ α (Out ρ σ α)} {exhausted : σ → List α → Out ρ σ α}
    (hb : Loop.Shrinks body) (stop : ∀ s xs o, body s xs = .inl o → o.rest <:+ xs)
    (next : ∀ s xs s' xs', body s xs = .inr (s', xs') → xs' <:+ xs) :
    Forward (Loop.run body exhausted) := fun s xs =>
  Loop.run_induction hb exhausted (fun _ ys => ys <:+ xs) (fun o => o.rest <:+ xs)
    (fun s ys o hys h => (stop s ys o h).trans hys)
    (fun s ys s' ys' hys h => (next s ys s' ys' h).trans hys) s xs (List.suffix_refl xs)

end Combine

/-! ## Steps on a part of the state -/

section Lift

variable {τ : Type} (get : τ → σ) (set : σ → τ → τ)

/-- A step on the part of the state that `get` reads and `set` writes. -/
def lift (f : Step ρ σ α) : Step ρ τ α := fun t xs =>
  let o := f (get t) xs
  ⟨o.result, set o.state t, o.rest⟩

variable {again : ρ} {ok : σ → Prop} {f : Step ρ σ α}

theorem lift_settles (hf : Settles again ok f) : Settles again (fun t => ok (get t)) (lift get set f) := by
  intro t xs ht hr z
  simp only [lift, hf (get t) xs ht hr z, Out.more_result, Out.more_state, Out.more_rest,
    Out.more_mk]

theorem lift_resumes (hf : Resumes again ok f) (get_set : ∀ s t, get (set s t) = s)
    (set_set : ∀ s s' t, set s (set s' t) = set s t) :
    Resumes again (fun t => ok (get t)) (lift get set f) := by
  intro t xs ht hr hok z
  simp only [lift, get_set] at hok
  simp only [lift, get_set, set_set, hf (get t) xs ht hr hok z]

theorem lift_forward (hf : Forward f) : Forward (lift get set f) := fun t xs => hf (get t) xs

end Lift

/-! ## Steps that emit updates -/

/-- On `xs` the step runs the updates `is`, whatever the state. -/
def Emits (u : ι → σ → σ) (step : Step ρ σ α) (xs : List α) (is : List ι) (r : ρ)
    (rest : List α) : Prop :=
  ∀ s, step s xs = ⟨r, applyAll u is s, rest⟩

/-- The updates depend on the input alone, and more input only adds to those of a step that
asks for more. -/
def Emitting (again : ρ) (u : ι → σ → σ) (step : Step ρ σ α) : Prop :=
  ∀ xs, ∃ is r rest, Emits u step xs is r rest ∧
    (r ≠ again → ∀ z, Emits u step (xs ++ z) is r (rest ++ z)) ∧
    (r = again → ∀ z, ∃ js r' rest', Emits u step (xs ++ z) (is ++ js) r' rest')

section Emitting

variable [DecidableEq ρ] {again next : ρ} {u : ι → σ → σ}

omit [DecidableEq ρ] in
/-- A step that emits nothing before it asks for more. -/
theorem Emitting.of_waits {step : Step ρ σ α}
    (h : ∀ xs, (∃ is r rest, r ≠ again ∧ ∀ s z, step s (xs ++ z) = ⟨r, applyAll u is s, rest ++ z⟩) ∨
      (∃ rest, ∀ s, step s xs = ⟨again, s, rest⟩)) : Emitting again u step := by
  have total : ∀ xs, ∃ is r rest, Emits u step xs is r rest := by
    intro xs
    rcases h xs with ⟨is, r, rest, -, hs⟩ | ⟨rest, hs⟩
    · exact ⟨is, r, rest, fun s => by simpa using hs s []⟩
    · exact ⟨[], again, rest, hs⟩
  intro xs
  rcases h xs with ⟨is, r, rest, hr, hs⟩ | ⟨rest, hs⟩
  · exact ⟨is, r, rest, fun s => by simpa using hs s [], fun _ z s => hs s z,
      fun h' => absurd h' hr⟩
  · exact ⟨[], again, rest, hs, fun h' => absurd rfl h', fun _ z => total (xs ++ z)⟩

theorem Emitting.andThen {f g : Step ρ σ α} (hn : next ≠ again) (hf : Emitting again u f)
    (hg : Emitting again u g) : Emitting again u (andThen next f g) := by
  intro xs
  obtain ⟨is, r, rest, hf₁, hf₂, hf₃⟩ := hf xs
  by_cases hr : r = next
  · subst hr
    obtain ⟨js, r', rest', hg₁, hg₂, hg₃⟩ := hg rest
    refine ⟨is ++ js, r', rest', ?_, ?_, ?_⟩
    · intro s
      simp [Resumable.andThen, hf₁ s, hg₁ _]
    · intro h' z s
      simp [Resumable.andThen, hf₂ hn z s, hg₂ h' z _]
    · intro h' z
      obtain ⟨ks, r'', rest'', hg₄⟩ := hg₃ h' z
      refine ⟨ks, r'', rest'', fun s => ?_⟩
      simp [Resumable.andThen, hf₂ hn z s, hg₄ _]
  · refine ⟨is, r, rest, ?_, ?_, ?_⟩
    · intro s
      simp [Resumable.andThen, hf₁ s, hr]
    · intro h' z s
      simp [Resumable.andThen, hf₂ h' z s, hr]
    · intro h' z
      obtain ⟨js, r', rest', hf₄⟩ := hf₃ h' z
      by_cases hr' : r' = next
      · subst hr'
        obtain ⟨ks, r'', rest'', hg₁, -, -⟩ := hg rest'
        refine ⟨js ++ ks, r'', rest'', fun s => ?_⟩
        simp [Resumable.andThen, hf₄ s, hg₁ _]
      · refine ⟨js, r', rest', fun s => ?_⟩
        simp [Resumable.andThen, hf₄ s, hr']

theorem Emitting.settles {f : Step ρ σ α} (hf : Emitting again u f) :
    Settles again (fun _ => True) (revert next f) := by
  intro s xs _ h z
  obtain ⟨is, r, rest, hf₁, hf₂, -⟩ := hf xs
  have hr : r ≠ again := by
    intro hr
    apply h
    by_cases hn : r = next <;> simp [revert, hf₁ s, hn, ← hr]
  by_cases hn : r = next
  · simp [revert, hf₁ s, hf₂ hr z s, hn]
  · simp [revert, hf₁ s, hf₂ hr z s, hn]

/-- A step that has gone back to its start can be called again as if it had not been called. -/
theorem Emitting.retries {f : Step ρ σ α} (hf : Emitting again u f) (hu : Replays u) {s : σ} {xs : List α} (h : (revert next f s xs).result ≠ next)
    (z : List α) :
    revert next f (revert next f s xs).state (xs ++ z) = revert next f s (xs ++ z) := by
  obtain ⟨is, r, rest, hf₁, hf₂, hf₃⟩ := hf xs
  have hne : r ≠ next := by
    intro hr
    apply h
    simp [revert, hf₁ s, hr]
  by_cases hr : r = again
  · obtain ⟨js, r', rest', hf₄⟩ := hf₃ hr z
    have hback : applyAll u js (applyAll u is (applyAll u is s)) =
        applyAll u js (applyAll u is s) := by
      rw [hu is s]
    simp [revert, hf₁ s, hne, hf₄ _, hback]
  · have hback : applyAll u is (applyAll u is s) = applyAll u is s := hu is s
    simp [revert, hf₁ s, hne, hf₂ hr z _, hback]

theorem Emitting.resumes {f : Step ρ σ α} (hf : Emitting again u f) (hu : Replays u)
    (hn : next ≠ again) : Resumes again (fun _ => True) (revert next f) := by
  intro s xs _ h _ z
  have hne : (revert next f s xs).result ≠ next := by
    rw [h]
    exact hn.symm
  rw [revert_rest next hne]
  exact hf.retries hu hne z

/-! ## Loops -/

/-- A loop body that emits one update in each iteration and asks for more before it has
emitted any. -/
def EmittingBody (again : ρ) (u : ι → σ → σ) (body : Loop.Body σ α (Out ρ σ α)) : Prop :=
  ∀ xs,
    (∃ i xs', ∀ s z, body s (xs ++ z) = .inr (u i s, xs' ++ z)) ∨
    (∃ is r rest, r ≠ again ∧ ∀ s z, body s (xs ++ z) = .inl ⟨r, applyAll u is s, rest ++ z⟩) ∨
    (∃ rest, ∀ s, body s xs = .inl ⟨again, s, rest⟩)

variable {body : Loop.Body σ α (Out ρ σ α)} {exhausted : σ → List α → Out ρ σ α}

omit [DecidableEq ρ] in
theorem run_emits (hb : Loop.Shrinks body) (he : EmittingBody again u body) :
    ∀ xs, ∃ is r rest, Emits u (Loop.run body exhausted) xs is r rest := by
  suffices h : ∀ n, ∀ xs : List α, xs.length < n → ∃ is r rest,
      Emits u (Loop.run body exhausted) xs is r rest from fun xs => h _ xs (Nat.lt_succ_self _)
  intro n
  induction n with
  | zero => intro xs h; omega
  | succ n ih =>
    intro xs hn
    rcases he xs with ⟨i, xs', h⟩ | ⟨is, r, rest, -, h⟩ | ⟨rest, h⟩
    · by_cases hs : Nonempty σ
      · obtain ⟨s₀⟩ := hs
        have h₀ : ∀ s, body s xs = .inr (u i s, xs') := fun s => by simpa using h s []
        obtain ⟨is, r, rest, hrun⟩ := ih xs' (by have := hb _ _ _ _ (h₀ s₀); omega)
        refine ⟨i :: is, r, rest, fun s => ?_⟩
        rw [Loop.run_eq hb, h₀ s]
        exact hrun (u i s)
      · exact ⟨[], again, [], fun s => absurd ⟨s⟩ hs⟩
    · refine ⟨is, r, rest, fun s => ?_⟩
      have h₀ := h s []
      simp only [List.append_nil] at h₀
      rw [Loop.run_eq hb, h₀]
    · refine ⟨[], again, rest, fun s => ?_⟩
      rw [Loop.run_eq hb, h s]
      rfl

omit [DecidableEq ρ] in
theorem EmittingBody.run (hb : Loop.Shrinks body) (he : EmittingBody again u body) :
    Emitting again u (Loop.run body exhausted) := by
  suffices h : ∀ n, ∀ xs : List α, xs.length < n → ∃ is r rest,
      Emits u (Loop.run body exhausted) xs is r rest ∧
      (r ≠ again → ∀ z, Emits u (Loop.run body exhausted) (xs ++ z) is r (rest ++ z)) ∧
      (r = again → ∀ z, ∃ js r' rest',
        Emits u (Loop.run body exhausted) (xs ++ z) (is ++ js) r' rest') from
    fun xs => h _ xs (Nat.lt_succ_self _)
  intro n
  induction n with
  | zero => intro xs h; omega
  | succ n ih =>
    intro xs hn
    rcases he xs with ⟨i, xs', h⟩ | ⟨is, r, rest, hr, h⟩ | ⟨rest, h⟩
    · by_cases hs : Nonempty σ
      · obtain ⟨s₀⟩ := hs
        have hlt : xs'.length < xs.length := by
          have := hb s₀ xs _ xs' (by simpa using h s₀ [])
          exact this
        obtain ⟨is, r, rest, h₁, h₂, h₃⟩ := ih xs' (by omega)
        have hrun : ∀ s z, Loop.run body exhausted s (xs ++ z) =
            Loop.run body exhausted (u i s) (xs' ++ z) := fun s z => by
          rw [Loop.run_eq hb, h s z]
        refine ⟨i :: is, r, rest, fun s => ?_, fun hr z s => ?_, fun hr z => ?_⟩
        · have := hrun s []
          simp only [List.append_nil] at this
          rw [this]; exact h₁ (u i s)
        · rw [hrun s z]; exact h₂ hr z (u i s)
        · obtain ⟨js, r', rest', h₄⟩ := h₃ hr z
          refine ⟨js, r', rest', fun s => ?_⟩
          rw [hrun s z]; exact h₄ (u i s)
      · refine ⟨[], again, [], fun s => absurd ⟨s⟩ hs, fun hr => absurd rfl hr, fun _ z => ?_⟩
        exact ⟨[], again, [], fun s => absurd ⟨s⟩ hs⟩
    · have hrun : ∀ s z, Loop.run body exhausted s (xs ++ z) =
          ⟨r, applyAll u is s, rest ++ z⟩ := fun s z => by
        rw [Loop.run_eq hb, h s z]
      refine ⟨is, r, rest, fun s => ?_, fun _ z s => hrun s z, fun h' => absurd h' hr⟩
      simpa using hrun s []
    · refine ⟨[], again, rest, fun s => ?_, fun hr => absurd rfl hr, fun _ z => ?_⟩
      · rw [Loop.run_eq hb, h s]
        rfl
      · exact run_emits hb he (xs ++ z)

end Emitting

section StateLoop

variable {again : ρ} {ok : σ → Prop}
  {body : Loop.Body σ α (Out ρ σ α)} {exhausted : σ → List α → Out ρ σ α}

/-- What a loop body whose iterations depend on its state has to do for the loop to settle
and to resume. -/
structure ResumingBody (again : ρ) (ok : σ → Prop) (body : Loop.Body σ α (Out ρ σ α))
    (exhausted : σ → List α → Out ρ σ α) : Prop where
  next : ∀ s xs s' xs', ok s → body s xs = .inr (s', xs') →
    ok s' ∧ ∀ z, body s (xs ++ z) = .inr (s', xs' ++ z)
  stop : ∀ s xs o, ok s → body s xs = .inl o → o.result ≠ again →
    ∀ z, body s (xs ++ z) = .inl (o.more z)
  wait : ∀ s xs o, ok s → body s xs = .inl o → o.result = again → ok o.state → ∀ z,
    Loop.run body exhausted o.state (o.rest ++ z) = Loop.run body exhausted s (xs ++ z)

theorem ResumingBody.settles (hb : Loop.Shrinks body)
    (h : ResumingBody again ok body exhausted) : Settles again ok (Loop.run body exhausted) := by
  suffices key : ∀ n, ∀ (s : σ) (xs : List α), xs.length < n → ok s →
      (Loop.run body exhausted s xs).result ≠ again → ∀ z,
      Loop.run body exhausted s (xs ++ z) = (Loop.run body exhausted s xs).more z from
    fun s xs => key _ s xs (Nat.lt_succ_self _)
  intro n
  induction n with
  | zero => intro s xs hn; omega
  | succ n ih =>
    intro s xs hn hs hr z
    rw [Loop.run_eq hb] at hr
    rw [Loop.run_eq hb exhausted s xs, Loop.run_eq hb exhausted s (xs ++ z)]
    cases hbody : body s xs with
    | inl o =>
      simp only [hbody] at hr
      simp [h.stop s xs o hs hbody hr z]
    | inr p =>
      obtain ⟨s', xs'⟩ := p
      obtain ⟨hs', hnext⟩ := h.next s xs s' xs' hs hbody
      simp only [hbody] at hr
      simp only [hnext z]
      exact ih s' xs' (by have := hb _ _ _ _ hbody; omega) hs' hr z

theorem ResumingBody.resumes (hb : Loop.Shrinks body)
    (h : ResumingBody again ok body exhausted) : Resumes again ok (Loop.run body exhausted) := by
  suffices key : ∀ n, ∀ (s : σ) (xs : List α), xs.length < n → ok s →
      (Loop.run body exhausted s xs).result = again →
      ok (Loop.run body exhausted s xs).state → ∀ z,
      Loop.run body exhausted (Loop.run body exhausted s xs).state
        ((Loop.run body exhausted s xs).rest ++ z) = Loop.run body exhausted s (xs ++ z) from
    fun s xs => key _ s xs (Nat.lt_succ_self _)
  intro n
  induction n with
  | zero => intro s xs hn; omega
  | succ n ih =>
    intro s xs hn hs hr hok z
    rw [Loop.run_eq hb] at hr hok
    rw [Loop.run_eq hb exhausted s xs]
    cases hbody : body s xs with
    | inl o =>
      simp only [hbody] at hr hok ⊢
      exact h.wait s xs o hs hbody hr hok z
    | inr p =>
      obtain ⟨s', xs'⟩ := p
      obtain ⟨hs', hnext⟩ := h.next s xs s' xs' hs hbody
      simp only [hbody] at hr hok ⊢
      rw [Loop.run_eq hb exhausted s (xs ++ z), hnext z]
      exact ih s' xs' (by have := hb _ _ _ _ hbody; omega) hs' hr hok z

end StateLoop

/-! ## Chains of steps -/

section Chain

variable [DecidableEq ρ] (next : ρ)

/-- Run the steps one after the other as long as they come to `next`; the state holds the
number of steps that have done so. -/
def chain : List (Step ρ σ α) → Step ρ (Nat × σ) α
  | [], (k, s), xs => ⟨next, (k, s), xs⟩
  | f :: fs, (k, s), xs =>
    let o := f s xs
    if o.result = next then chain fs (k + 1, o.state) o.rest
    else ⟨o.result, (k, o.state), o.rest⟩

/-- Call the chain from the step it has come to. -/
def runChain (fs : List (Step ρ σ α)) : Step ρ (Nat × σ) α := fun p xs =>
  chain next (fs.drop p.1) p xs

theorem chain_forward : ∀ {fs : List (Step ρ σ α)}, (∀ f ∈ fs, Forward f) →
    Forward (chain next fs)
  | [], _ => fun _ xs => List.suffix_refl xs
  | f :: fs, hfs => by
    rintro ⟨k, s⟩ xs
    have hf := hfs f List.mem_cons_self s xs
    unfold chain
    dsimp only
    split
    · exact (chain_forward (fun g hg => hfs g (List.mem_cons_of_mem f hg)) _ _).trans hf
    · exact hf

theorem runChain_forward {fs : List (Step ρ σ α)} (hfs : ∀ f ∈ fs, Forward f) :
    Forward (runChain next fs) := fun p =>
  chain_forward next (fun f hf => hfs f (List.mem_of_mem_drop hf)) p

theorem chain_append : ∀ (fs gs : List (Step ρ σ α)) (p : Nat × σ) (xs : List α),
    chain next (fs ++ gs) p xs =
      if (chain next fs p xs).result = next then
        chain next gs (chain next fs p xs).state (chain next fs p xs).rest
      else chain next fs p xs
  | [], gs, (k, s), xs => by simp [chain]
  | f :: fs, gs, (k, s), xs => by
    simp only [List.cons_append, chain]
    split
    · exact chain_append fs gs _ _
    · simp

/-- A chain does not go back. -/
theorem le_chain : ∀ (fs : List (Step ρ σ α)) (k : Nat) (s : σ) (xs : List α),
    k ≤ (chain next fs (k, s) xs).state.1
  | [], k, _, _ => Nat.le_refl k
  | f :: fs, k, s, xs => by
    unfold chain
    dsimp only
    split
    · exact Nat.le_of_succ_le (le_chain fs (k + 1) _ _)
    · exact Nat.le_refl k

/-- What every step of a chain keeps, in the place where the chain has come to, holds where
the chain stops. -/
theorem chain_induction (inv : Nat → σ → List α → Prop) :
    ∀ (fs : List (Step ρ σ α)) (k : Nat),
      (∀ j f s xs, fs[j]? = some f → inv (k + j) s xs →
        inv (if (f s xs).result = next then k + j + 1 else k + j) (f s xs).state (f s xs).rest) →
      ∀ s xs, inv k s xs →
        inv (chain next fs (k, s) xs).state.1 (chain next fs (k, s) xs).state.2
          (chain next fs (k, s) xs).rest
  | [], _, _, _, _, h => h
  | f :: fs, k, hstep, s, xs, h => by
    have hf := hstep 0 f s xs rfl h
    unfold chain
    dsimp only
    split
    · rename_i hr
      rw [if_pos hr] at hf
      refine chain_induction inv fs (k + 1) (fun j g t ys hg ht => ?_) _ _ hf
      have := hstep (j + 1) g t ys (by simpa using hg)
      rw [show k + 1 + j = k + (j + 1) by omega] at ht ⊢
      exact this ht
    · rename_i hr
      rw [if_neg hr] at hf
      exact hf

theorem runChain_induction (inv : Nat → σ → List α → Prop) {fs : List (Step ρ σ α)}
    (hstep : ∀ k f s xs, fs[k]? = some f → inv k s xs →
      inv (if (f s xs).result = next then k + 1 else k) (f s xs).state (f s xs).rest)
    (k : Nat) (s : σ) (xs : List α) (h : inv k s xs) :
    inv (runChain next fs (k, s) xs).state.1 (runChain next fs (k, s) xs).state.2
      (runChain next fs (k, s) xs).rest :=
  chain_induction next inv (fs.drop k) k
    (fun j f t ys hf => hstep (k + j) f t ys (by simpa using hf)) s xs h

variable {next} {again : ρ} {ok : σ → Prop}

/-- The steps of a chain settle and resume, and hand on states that are `ok`. -/
structure Link (next again : ρ) (ok : σ → Prop) (f : Step ρ σ α) : Prop where
  settles : Settles again ok f
  resumes : Resumes again ok f
  keeps : ∀ s xs, ok s → (f s xs).result = next → ok (f s xs).state

theorem chain_settles : ∀ {fs : List (Step ρ σ α)}, (∀ f ∈ fs, Link next again ok f) →
    next ≠ again → Settles again (fun p => ok p.2) (chain next fs)
  | [], _, _ => by
    rintro ⟨k, s⟩ xs - - z
    rfl
  | f :: fs, hfs, hn => by
    rintro ⟨k, s⟩ xs hs hr z
    have hf := hfs f List.mem_cons_self
    have ih : Settles again (fun p => ok p.2) (chain next fs) :=
      chain_settles (fun g hg => hfs g (List.mem_cons_of_mem f hg)) hn
    rw [chain] at hr
    rw [chain, chain]
    by_cases hnext : (f s xs).result = next
    · rw [if_pos hnext] at hr
      rw [hf.settles s xs hs (by rw [hnext]; exact hn) z, Out.more_result, if_pos hnext,
        if_pos hnext]
      exact ih _ _ (hf.keeps s xs hs hnext) hr z
    · rw [if_neg hnext] at hr
      rw [hf.settles s xs hs hr z, Out.more_result, if_neg hnext, if_neg hnext]
      rfl

/-- A chain that asks for more stands at the step that asked. -/
theorem chain_again : ∀ {fs : List (Step ρ σ α)} {k : Nat} {s : σ} {xs : List α},
    next ≠ again → (chain next fs (k, s) xs).result = again →
    (∀ f ∈ fs, Link next again ok f) → ok s → ok (chain next fs (k, s) xs).state.2 →
    ∃ j, (chain next fs (k, s) xs).state.1 = k + j ∧ ∀ z,
      chain next (fs.drop j) (chain next fs (k, s) xs).state
        ((chain next fs (k, s) xs).rest ++ z) = chain next fs (k, s) (xs ++ z)
  | [], k, s, xs, hn, hr, _, _, _ => absurd hr hn
  | f :: fs, k, s, xs, hn, hr, hfs, hs, hok => by
    have hf := hfs f List.mem_cons_self
    by_cases hnext : (f s xs).result = next
    · have hstep : ∀ z, chain next (f :: fs) (k, s) (xs ++ z) =
          chain next fs (k + 1, (f s xs).state) ((f s xs).rest ++ z) := fun z => by
        simp [chain, hf.settles s xs hs (by rw [hnext]; exact hn) z, hnext]
      have h₀ : chain next (f :: fs) (k, s) xs =
          chain next fs (k + 1, (f s xs).state) (f s xs).rest := by simpa using hstep []
      rw [h₀] at hr hok ⊢
      obtain ⟨j, hj, hcont⟩ := chain_again hn hr
        (fun g hg => hfs g (List.mem_cons_of_mem f hg)) (hf.keeps s xs hs hnext) hok
      refine ⟨j + 1, by rw [hj]; omega, fun z => ?_⟩
      rw [hstep z]
      exact hcont z
    · have h₀ : chain next (f :: fs) (k, s) xs =
          ⟨(f s xs).result, (k, (f s xs).state), (f s xs).rest⟩ := by simp [chain, hnext]
      rw [h₀] at hr hok ⊢
      refine ⟨0, rfl, fun z => ?_⟩
      simp [chain, hf.resumes s xs hs hr hok z]

theorem runChain_settles {fs : List (Step ρ σ α)} (hfs : ∀ f ∈ fs, Link next again ok f)
    (hn : next ≠ again) : Settles again (fun p => ok p.2) (runChain next fs) := fun p =>
  chain_settles (fun f hf => hfs f (List.mem_of_mem_drop hf)) hn p

/-- **A chain of steps resumes** at the step that has asked for more. -/
theorem runChain_resumes {fs : List (Step ρ σ α)} (hfs : ∀ f ∈ fs, Link next again ok f)
    (hn : next ≠ again) : Resumes again (fun p => ok p.2) (runChain next fs) := by
  rintro ⟨k, s⟩ xs hs hr hok z
  obtain ⟨j, hj, hcont⟩ := chain_again hn hr
    (fun f hf => hfs f (List.mem_of_mem_drop hf)) hs hok
  have hdrop : fs.drop (k + j) = (fs.drop k).drop j := by rw [List.drop_drop]
  change chain next (fs.drop (chain next (fs.drop k) (k, s) xs).state.1) _ _ = _
  rw [hj, hdrop]
  exact hcont z

end Chain

/-! ## Pieces -/

section Pieces

variable {again : ρ} {ok : σ → Prop} {step : Step ρ σ α}

/-- The calls of a step to which the pieces of its input are given one by one. -/
def feedAll (step : Step ρ σ α) : σ → List α → List (List α) → List (Out ρ σ α)
  | _, _, [] => []
  | s, xs, p :: ps =>
    let o := step s (xs ++ p)
    o :: feedAll step o.state o.rest ps

@[simp] theorem feedAll_length : ∀ (ps : List (List α)) (s : σ) (xs : List α),
    (feedAll step s xs ps).length = ps.length
  | [], _, _ => rfl
  | p :: ps, s, xs => by simp [feedAll, feedAll_length ps]

/-- Each call starts where the call before it has left off. -/
theorem feedAll_succ : ∀ (ps : List (List α)) (s : σ) (xs : List α) (i : Nat) (o : Out ρ σ α)
    (q : List α), (feedAll step s xs ps)[i]? = some o → ps[i + 1]? = some q →
      (feedAll step s xs ps)[i + 1]? = some (step o.state (o.rest ++ q))
  | [], _, _, _, _, _, h, _ => by simp [feedAll] at h
  | [p], _, _, i, _, _, _, hq => by simp at hq
  | p :: p' :: ps, s, xs, 0, o, q, h, hq => by
    simp only [feedAll, List.getElem?_cons_zero, Option.some.injEq] at h
    simp only [List.getElem?_cons_succ, List.getElem?_cons_zero, Option.some.injEq] at hq
    simp [feedAll, h, hq]
  | p :: p' :: ps, s, xs, i + 1, o, q, h, hq => by
    unfold feedAll at h ⊢
    simp only [List.getElem?_cons_succ] at h hq ⊢
    exact feedAll_succ (p' :: ps) _ _ i o q h hq

/-- **Segmentation.** As long as every call before has asked for more and left an `ok` state,
a call gives what a single call with all of the pieces gives. -/
theorem feedAll_eq (hres : Resumes again ok step) :
    ∀ (ps : List (List α)) (s : σ) (xs : List α) (i : Nat), ok s → i < ps.length →
      (∀ j < i, (step s (xs ++ (ps.take (j + 1)).flatten)).result = again ∧
        ok (step s (xs ++ (ps.take (j + 1)).flatten)).state) →
      (feedAll step s xs ps)[i]? = some (step s (xs ++ (ps.take (i + 1)).flatten))
  | [], _, _, i, _, hi, _ => absurd hi (by simp)
  | p :: ps, s, xs, 0, _, _, _ => by simp [feedAll]
  | p :: ps, s, xs, i + 1, hs, hi, h => by
    obtain ⟨hr, hok⟩ : (step s (xs ++ p)).result = again ∧ ok (step s (xs ++ p)).state := by
      simpa using h 0 (by omega)
    have hcont : ∀ z, step (step s (xs ++ p)).state ((step s (xs ++ p)).rest ++ z) =
        step s (xs ++ (p ++ z)) := fun z => by
      rw [← List.append_assoc]; exact hres s (xs ++ p) hs hr hok z
    have ih := feedAll_eq hres ps (step s (xs ++ p)).state (step s (xs ++ p)).rest i
      hok (by simpa using hi) fun j hj => by
        have hj' := h (j + 1) (by omega)
        rw [List.take_succ_cons, List.flatten_cons] at hj'
        rw [hcont]
        exact hj'
    unfold feedAll
    rw [List.getElem?_cons_succ, ih, hcont, List.take_succ_cons (i := i + 1), List.flatten_cons]

end Pieces

end Resumable
