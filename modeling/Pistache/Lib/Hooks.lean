/-!
# Hooks asked one after the other

A hook takes what the hooks share and gives an answer.  `ask` goes through a list of hooks, in
order, up to the first whose answer does not pass; `Asked` says the same without the loop.

* `asked_ask` — the loop does what `Asked` says.
* `Asked.unique` — and nothing else does.
-/

set_option autoImplicit false

namespace Hooks

variable {σ α : Type}

abbrev Hook (σ α : Type) := σ → σ × α

/-- The answers, what the hooks share in the end, and the answer that did not pass. -/
def ask (passes : α → Bool) : List (Hook σ α) → σ → List α × σ × Option α
  | [], s => ([], s, none)
  | hook :: hooks, s =>
    if passes (hook s).2 then
      let (answers, r) := ask passes hooks (hook s).1
      ((hook s).2 :: answers, r)
    else ([(hook s).2], (hook s).1, some (hook s).2)

/-- Hooks asked in order: each but the last has passed, and the last if no answer is left. -/
inductive Asked (passes : α → Bool) :
    List (Hook σ α) → σ → List α → σ → Option α → Prop where
  | none (s) : Asked passes [] s [] s none
  | pass {hook hooks s answers s' last} : passes (hook s).2 = true →
      Asked passes hooks (hook s).1 answers s' last →
      Asked passes (hook :: hooks) s ((hook s).2 :: answers) s' last
  | stop {hook hooks s} : passes (hook s).2 = false →
      Asked passes (hook :: hooks) s [(hook s).2] (hook s).1 (some (hook s).2)

variable {passes : α → Bool}

theorem asked_ask (hooks : List (Hook σ α)) : ∀ s : σ,
    Asked passes hooks s (ask passes hooks s).1 (ask passes hooks s).2.1
      (ask passes hooks s).2.2 := by
  induction hooks with
  | nil => exact fun s => .none s
  | cons hook hooks ih =>
    intro s
    unfold ask
    cases h : passes (hook s).2 with
    | true => exact .pass h (ih (hook s).1)
    | false => exact .stop h

theorem Asked.unique {hooks : List (Hook σ α)} {s s₁ s₂ : σ} {as bs : List α}
    {last₁ last₂ : Option α} (h₁ : Asked passes hooks s as s₁ last₁)
    (h₂ : Asked passes hooks s bs s₂ last₂) : as = bs ∧ s₁ = s₂ ∧ last₁ = last₂ := by
  induction h₁ generalizing bs with
  | none s =>
    cases h₂
    exact ⟨rfl, rfl, rfl⟩
  | pass hp _ ih =>
    cases h₂ with
    | pass _ h₂ =>
      obtain ⟨rfl, rfl, rfl⟩ := ih h₂
      exact ⟨rfl, rfl, rfl⟩
    | stop hf =>
      rw [hp] at hf
      cases hf
  | stop hf =>
    cases h₂ with
    | pass hp _ =>
      rw [hp] at hf
      cases hf
    | stop => exact ⟨rfl, rfl, rfl⟩

/-- The loop is the only one to do it. -/
theorem ask_of_asked {hooks : List (Hook σ α)} {s s' : σ} {answers : List α} {last : Option α}
    (h : Asked passes hooks s answers s' last) : ask passes hooks s = (answers, s', last) := by
  obtain ⟨h₁, h₂, h₃⟩ := (asked_ask hooks s).unique h
  rw [← h₁, ← h₂, ← h₃]

/-- The answer that is left did not pass. -/
theorem Asked.not_passes {hooks : List (Hook σ α)} {s s' : σ} {answers : List α} {a : α}
    (h : Asked passes hooks s answers s' (some a)) : passes a = false ∧ a ∈ answers := by
  generalize hl : some a = last at h
  induction h with
  | none => cases hl
  | pass _ _ ih => exact ⟨(ih hl).1, List.mem_cons_of_mem _ (ih hl).2⟩
  | stop hf =>
    obtain rfl := Option.some.inj hl
    exact ⟨hf, List.mem_singleton_self _⟩

end Hooks
