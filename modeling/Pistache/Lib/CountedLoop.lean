/-!
# Loops with a counter

`run pass n i s` makes up to `n` passes, counted from `i`, until one leaves with a result.
`Along P` says that each pass that is made meets `P` where it begins.

* `run_rel` — what every pass does to the state, the loop does.
* `along_iff` — what the passes keep, each from where it begins, the loop keeps.
-/

set_option autoImplicit false

namespace CountedLoop

variable {σ ρ : Type}

/-- One pass: the state after it, and the result if the loop ends with it. -/
abbrev Pass (σ ρ : Type) := Nat → σ → σ × Option ρ

def run (pass : Pass σ ρ) : Nat → Nat → σ → σ × Option ρ
  | 0, _, s => (s, none)
  | n + 1, i, s =>
    match pass i s with
    | (s', none) => run pass n (i + 1) s'
    | (s', some r) => (s', some r)

def Along (pass : Pass σ ρ) (P : Nat → σ → Prop) : Nat → Nat → σ → Prop
  | 0, _, _ => True
  | n + 1, i, s => P i s ∧ ((pass i s).2 = none → Along pass P n (i + 1) (pass i s).1)

variable {pass : Pass σ ρ} {R Q : σ → σ → Prop} {P : Nat → σ → Prop}

theorem run_next {n i : Nat} {s : σ} (h : (pass i s).2 = none) :
    run pass (n + 1) i s = run pass n (i + 1) (pass i s).1 := by
  rw [run]
  generalize pass i s = p at h
  obtain ⟨s', r⟩ := p
  cases h
  rfl

theorem run_leave {n i : Nat} {s : σ} {r : ρ} (h : (pass i s).2 = some r) :
    run pass (n + 1) i s = ((pass i s).1, some r) := by
  rw [run]
  generalize pass i s = p at h
  obtain ⟨s', r'⟩ := p
  cases h
  rfl

/-- What every pass does to the state, the loop does. -/
theorem run_rel (refl : ∀ s, R s s) (trans : ∀ {a b c}, R a b → R b c → R a c)
    (hpass : ∀ i s, R s (pass i s).1) : ∀ n i s, R s (run pass n i s).1
  | 0, _, s => refl s
  | n + 1, i, s => by
    cases h : (pass i s).2 with
    | none =>
      rw [run_next h]
      exact trans (hpass i s) (run_rel refl trans hpass n (i + 1) _)
    | some r =>
      rw [run_leave h]
      exact hpass i s

/-- Where `Q` holds from one state to another if and only if it holds to and from any state
between them, it holds of the loop if and only if it holds of each pass that is made. -/
theorem along_iff (refl : ∀ s, R s s) (trans : ∀ {a b c}, R a b → R b c → R a c)
    (hrefl : ∀ s, Q s s) (hsplit : ∀ {a b c}, R a b → R b c → (Q a c ↔ Q a b ∧ Q b c))
    (hpass : ∀ i s, R s (pass i s).1) (hP : ∀ i s, P i s ↔ Q s (pass i s).1) :
    ∀ n i s, Along pass P n i s ↔ Q s (run pass n i s).1
  | 0, _, s => iff_of_true trivial (hrefl s)
  | n + 1, i, s => by
    rw [Along, hP]
    cases h : (pass i s).2 with
    | none =>
      have ih := along_iff refl trans hrefl hsplit hpass hP n (i + 1) (pass i s).1
      rw [run_next h, hsplit (hpass i s) (run_rel refl trans hpass n (i + 1) _), ih]
      exact and_congr_right fun _ => ⟨fun h => h rfl, fun h _ => h⟩
    | some r =>
      rw [run_leave h]
      exact and_iff_left nofun

end CountedLoop
