import Pistache.Lib.Loop

/-!
# Loops pass by pass

A loop body either leaves with a result or goes on in a new state.  `Leaves body n s r` says that
the loop, begun in the state `s`, leaves in its `n`-th pass with `r`; nothing else ends a loop.  A
`While` is a loop with the function that gives its result and the number of passes that can follow
a state.

* `Leaves.unique` — a loop leaves at most once.
* `While.leaves` — a `While` leaves from every state, with the result of its function, after no
  more passes than its bound.
* `While.ofRun` — loops that consume their input.
-/

set_option autoImplicit false

namespace Passes

variable {σ ρ : Type}

/-- A loop body: leave with a result, or go on. -/
abbrev Body (σ ρ : Type) := σ → ρ ⊕ σ

inductive Leaves (body : Body σ ρ) : Nat → σ → ρ → Prop
  | exit {s : σ} {r : ρ} : body s = .inl r → Leaves body 1 s r
  | again {n : Nat} {s s' : σ} {r : ρ} :
      body s = .inr s' → Leaves body n s' r → Leaves body (n + 1) s r

/-- The pass in which a loop leaves and its result are determined. -/
theorem Leaves.unique {body : Body σ ρ} {n m : Nat} {s : σ} {r q : ρ} (h : Leaves body n s r)
    (h' : Leaves body m s q) : n = m ∧ r = q := by
  induction h generalizing m with
  | exit he =>
    cases h' with
    | exit he' => exact ⟨rfl, Sum.inl.inj (he.symm.trans he')⟩
    | again hs' _ => exact nomatch he.symm.trans hs'
  | again hs _ ih =>
    cases h' with
    | exit he' => exact nomatch hs.symm.trans he'
    | again hs' hrest =>
      obtain rfl := Sum.inr.inj (hs.symm.trans hs')
      obtain ⟨rfl, rfl⟩ := ih hrest
      exact ⟨rfl, rfl⟩

/-- A loop with its result; `passes` bounds the passes that follow a state. -/
structure While (σ ρ : Type) where
  body : Body σ ρ
  outcome : σ → ρ
  passes : σ → Nat
  exits : ∀ {s r}, body s = .inl r → outcome s = r
  goesOn : ∀ {s s'}, body s = .inr s' → outcome s = outcome s' ∧ passes s' < passes s

/-- The loop leaves from every state. -/
def While.Returns (loop : While σ ρ) : Prop :=
  ∀ s, ∃ n ≤ loop.passes s + 1, Leaves loop.body n s (loop.outcome s)

/-- **Every loop leaves**, by induction on the passes that can follow. -/
theorem While.leaves (loop : While σ ρ) : loop.Returns := by
  suffices h : ∀ k s, loop.passes s ≤ k →
      ∃ n ≤ loop.passes s + 1, Leaves loop.body n s (loop.outcome s) from
    fun s => h _ s (Nat.le_refl _)
  intro k
  induction k with
  | zero =>
    intro s hs
    cases hb : loop.body s with
    | inl r => exact ⟨1, by omega, loop.exits hb ▸ .exit hb⟩
    | inr s' => exact absurd (loop.goesOn hb).2 (by omega)
  | succ k ih =>
    intro s hs
    cases hb : loop.body s with
    | inl r => exact ⟨1, by omega, loop.exits hb ▸ .exit hb⟩
    | inr s' =>
      obtain ⟨hout, hlt⟩ := loop.goesOn hb
      obtain ⟨n, hn, hleaves⟩ := ih s' (by omega)
      exact ⟨n + 1, by omega, hout ▸ .again hb hleaves⟩

/-- A loop that consumes its input. -/
def While.ofRun {α : Type} (body : Loop.Body σ α ρ) (exhausted : σ → List α → ρ)
    (hb : Loop.Shrinks body) : While (σ × List α) ρ where
  body p := body p.1 p.2
  outcome p := Loop.run body exhausted p.1 p.2
  passes p := p.2.length
  exits := by
    rintro ⟨s, xs⟩ r h
    dsimp only at h ⊢
    rw [Loop.run_eq hb, h]
  goesOn := by
    rintro ⟨s, xs⟩ ⟨s', xs'⟩ h
    dsimp only at h ⊢
    exact ⟨by rw [Loop.run_eq hb, h], hb s xs s' xs' h⟩

end Passes
