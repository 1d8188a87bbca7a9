/-!
# Backtracking over a shared trail

An `Attempt` may read and change a trail it shares with all other attempts of one search.
`orElse` tries a second attempt when the first has failed, `during` puts something on the trail
for the time of an attempt and takes it off when the attempt fails, `firstOf` tries a list of
attempts in order.

Principal results: `Answers` says that an attempt gives what a pure function of the trail says
and leaves the trail as it found it when it fails; `Answers.orElse`, `Answers.during` and
`Answers.firstOf` carry it through the three ways to put attempts together, so that a search
built from them is the first success among its alternatives, whatever was tried before.
-/

set_option autoImplicit false

namespace Backtrack

variable {σ ρ α : Type}

/-- An attempt gives a result, or none, and the trail as it leaves it. -/
abbrev Attempt (σ ρ : Type) := σ → Option ρ × σ

namespace Attempt

def fail : Attempt σ ρ := fun trail => (none, trail)

/-- The second attempt starts from the trail the first one has left. -/
def orElse (first second : Attempt σ ρ) : Attempt σ ρ := fun trail =>
  match first trail with
  | (some result, trail') => (some result, trail')
  | (none, trail') => second trail'

/-- `pop` is run after a failure only: a success returns at once. -/
def during (push pop : σ → σ) (attempt : Attempt σ ρ) : Attempt σ ρ := fun trail =>
  match attempt (push trail) with
  | (some result, trail') => (some result, trail')
  | (none, trail') => (none, pop trail')

def firstOf (attempt : α → Attempt σ ρ) : List α → Attempt σ ρ
  | [] => fail
  | x :: xs => (attempt x).orElse (firstOf attempt xs)

end Attempt

/-- The attempt gives the answer, and a failed attempt has restored the trail. -/
structure Answers (attempt : Attempt σ ρ) (answer : σ → Option ρ) : Prop where
  result : ∀ trail, (attempt trail).1 = answer trail
  restores : ∀ trail, answer trail = none → (attempt trail).2 = trail

namespace Answers

theorem fail : Answers (Attempt.fail : Attempt σ ρ) (fun _ => none) :=
  ⟨fun _ => rfl, fun _ _ => rfl⟩

theorem congr {attempt : Attempt σ ρ} {answer answer' : σ → Option ρ}
    (h : Answers attempt answer) (heq : ∀ trail, answer trail = answer' trail) :
    Answers attempt answer' := by
  have : answer = answer' := funext heq
  exact this ▸ h

theorem orElse {first second : Attempt σ ρ} {answer answer' : σ → Option ρ}
    (hf : Answers first answer) (hs : Answers second answer') :
    Answers (first.orElse second) (fun trail => (answer trail).or (answer' trail)) := by
  constructor
  · intro trail
    have hres := hf.result trail
    unfold Attempt.orElse
    split
    · next r trail' h =>
      rw [h] at hres
      rw [← hres]
      rfl
    · next trail' h =>
      rw [h] at hres
      have hback := hf.restores trail hres.symm
      rw [h] at hback
      simp only at hback
      rw [← hres, hback, hs.result, Option.none_or]
  · intro trail hnone
    obtain ⟨h₁, h₂⟩ := Option.or_eq_none_iff.mp hnone
    have hres := hf.result trail
    have hback := hf.restores trail h₁
    unfold Attempt.orElse
    split
    · next r trail' h =>
      rw [h, h₁] at hres
      cases hres
    · next trail' h =>
      rw [h] at hback
      simp only at hback
      rw [hback]
      exact hs.restores trail h₂

theorem during {attempt : Attempt σ ρ} {answer : σ → Option ρ} {push pop : σ → σ}
    (hpop : ∀ trail, pop (push trail) = trail) (h : Answers attempt answer) :
    Answers (attempt.during push pop) (fun trail => answer (push trail)) := by
  constructor
  · intro trail
    have hres := h.result (push trail)
    unfold Attempt.during
    split
    · next r trail' heq => rw [← hres, heq]
    · next trail' heq => rw [← hres, heq]
  · intro trail hnone
    have hres := h.result (push trail)
    have hback := h.restores (push trail) hnone
    unfold Attempt.during
    split
    · next r trail' heq =>
      rw [heq, hnone] at hres
      cases hres
    · next trail' heq =>
      rw [heq] at hback
      simp only at hback
      rw [hback]
      exact hpop trail

theorem firstOf {attempt : α → Attempt σ ρ} {answer : α → σ → Option ρ} :
    ∀ {xs : List α}, (∀ x ∈ xs, Answers (attempt x) (answer x)) →
      Answers (Attempt.firstOf attempt xs) (fun trail => xs.findSome? fun x => answer x trail) := by
  intro xs h
  induction xs with
  | nil => exact fail
  | cons x xs ih =>
    refine ((h x (by simp)).orElse (ih fun y hy => h y (by simp [hy]))).congr fun trail => ?_
    rw [List.findSome?_cons]
    cases answer x trail <;> rfl

end Answers

end Backtrack
