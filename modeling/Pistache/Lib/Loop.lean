/-!
# Loops that consume their input

`loop body exhausted fuel s xs` runs a `while` loop whose body either leaves with a result or
goes on with a new state and a shorter rest of the input.  `run` gives it one unit of fuel for
each input element and one more, which is enough: for a body that shrinks its input `run`
unfolds without any fuel (`run_eq`), and `exhausted` is never reached.
-/

set_option autoImplicit false

namespace Loop

variable {σ α ρ : Type}

/-- A loop body: leave with a result, or continue with a state and the rest of the input. -/
abbrev Body (σ α ρ : Type) := σ → List α → ρ ⊕ (σ × List α)

def loop (body : Body σ α ρ) (exhausted : σ → List α → ρ) : Nat → σ → List α → ρ
  | 0, s, xs => exhausted s xs
  | fuel + 1, s, xs =>
    match body s xs with
    | .inl r => r
    | .inr (s', xs') => loop body exhausted fuel s' xs'

def run (body : Body σ α ρ) (exhausted : σ → List α → ρ) (s : σ) (xs : List α) : ρ :=
  loop body exhausted (xs.length + 1) s xs

/-- Every continuing iteration takes something from the input. -/
def Shrinks (body : Body σ α ρ) : Prop :=
  ∀ s xs s' xs', body s xs = .inr (s', xs') → xs'.length < xs.length

theorem loop_fuel {body : Body σ α ρ} (hb : Shrinks body) (exhausted : σ → List α → ρ) :
    ∀ (m n : Nat) (s : σ) (xs : List α), xs.length < m → xs.length < n →
      loop body exhausted m s xs = loop body exhausted n s xs
  | 0, _, _, _, hm, _ => absurd hm (by omega)
  | _, 0, _, _, _, hn => absurd hn (by omega)
  | m + 1, n + 1, s, xs, hm, hn => by
    unfold loop
    cases h : body s xs with
    | inl r => rfl
    | inr p =>
      obtain ⟨s', xs'⟩ := p
      have hlt := hb s xs s' xs' h
      exact loop_fuel hb exhausted m n s' xs' (by omega) (by omega)

/-- **Unfolding.** One iteration of a shrinking loop. -/
theorem run_eq {body : Body σ α ρ} (hb : Shrinks body) (exhausted : σ → List α → ρ)
    (s : σ) (xs : List α) :
    run body exhausted s xs =
      match body s xs with
      | .inl r => r
      | .inr (s', xs') => run body exhausted s' xs' := by
  unfold run
  rw [loop]
  cases h : body s xs with
  | inl r => rfl
  | inr p =>
    obtain ⟨s', xs'⟩ := p
    have hlt := hb s xs s' xs' h
    exact loop_fuel hb exhausted _ _ s' xs' (by omega) (by omega)

/-- Induction along a shrinking loop: what each iteration preserves and each exit
establishes holds of the result. -/
theorem run_induction {body : Body σ α ρ} (hb : Shrinks body) (exhausted : σ → List α → ρ)
    (inv : σ → List α → Prop) (post : ρ → Prop)
    (exit : ∀ s xs r, inv s xs → body s xs = .inl r → post r)
    (next : ∀ s xs s' xs', inv s xs → body s xs = .inr (s', xs') → inv s' xs') :
    ∀ (s : σ) (xs : List α), inv s xs → post (run body exhausted s xs) := by
  suffices h : ∀ (n : Nat) (s : σ) (xs : List α), xs.length < n → inv s xs →
      post (run body exhausted s xs) from
    fun s xs hi => h (xs.length + 1) s xs (by omega) hi
  intro n
  induction n with
  | zero => intro s xs hn; omega
  | succ n ih =>
    intro s xs hn hi
    rw [run_eq hb]
    cases h : body s xs with
    | inl r => exact exit s xs r hi h
    | inr p =>
      obtain ⟨s', xs'⟩ := p
      have hlt := hb s xs s' xs' h
      exact ih s' xs' (by omega) (next s xs s' xs' hi h)

end Loop
