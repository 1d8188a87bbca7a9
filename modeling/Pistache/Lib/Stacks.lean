import Mathlib.Algebra.BigOperators.Group.Finset.Piecewise
import Mathlib.Algebra.GroupWithZero.Nat
import Mathlib.Algebra.Order.BigOperators.Group.Finset

/-!
# Threads with call stacks

Each thread of a program has a stack of frames, the running one first; a step changes the stack
of one thread.

* `total_update` — a weight of frames, summed over all stacks, changes by what the step puts in
  place of the old stack.
* `Occurs.update_iff` — the frames of all stacks after a step.
* `Tower` — what holds of each frame of a stack and those below it.
-/

set_option autoImplicit false

namespace Stacks

variable {T F : Type}

/-! ## Weights -/

/-- The weight of one stack. -/
def weight (w : F → Nat) (fs : List F) : Nat := (fs.map w).sum

variable {w : F → Nat} {f : F} {fs : List F}

@[simp] theorem weight_nil : weight w [] = 0 := rfl

@[simp] theorem weight_cons : weight w (f :: fs) = w f + weight w fs := List.sum_cons

theorem weight_append {gs : List F} : weight w (fs ++ gs) = weight w fs + weight w gs := by
  rw [weight, List.map_append, List.sum_append]
  rfl

theorem weight_mono {v : F → Nat} (h : ∀ f, v f ≤ w f) (fs : List F) :
    weight v fs ≤ weight w fs :=
  List.sum_le_sum fun f _ => h f

theorem le_weight (h : f ∈ fs) : w f ≤ weight w fs :=
  List.single_le_sum (fun _ _ => Nat.zero_le _) _ (List.mem_map_of_mem h)

/-- The weight of all stacks. -/
def total [Fintype T] (w : F → Nat) (stack : T → List F) : Nat := ∑ t, weight w (stack t)

theorem total_empty [Fintype T] {stack : T → List F} (h : ∀ t, stack t = []) :
    total w stack = 0 :=
  Finset.sum_eq_zero fun t _ => by rw [h t, weight_nil]

theorem total_mono [Fintype T] {v : F → Nat} (h : ∀ f, v f ≤ w f) (stack : T → List F) :
    total v stack ≤ total w stack :=
  Finset.sum_le_sum fun t _ => weight_mono h (stack t)

theorem weight_le_total [Fintype T] (stack : T → List F) (t : T) :
    weight w (stack t) ≤ total w stack :=
  Finset.single_le_sum (f := fun t => weight w (stack t)) (fun _ _ => Nat.zero_le _)
    (Finset.mem_univ t)

theorem weight_add_le_total [Fintype T] [DecidableEq T] (stack : T → List F) {t u : T}
    (h : t ≠ u) : weight w (stack t) + weight w (stack u) ≤ total w stack := by
  rw [total, ← Finset.sum_pair (f := fun t => weight w (stack t)) h]
  exact Finset.sum_le_sum_of_subset (Finset.subset_univ _)

/-- **One stack changes.** -/
theorem total_update [Fintype T] [DecidableEq T] (w : F → Nat) (stack : T → List F) (t : T)
    (fs : List F) :
    total w (Function.update stack t fs) + weight w (stack t) = total w stack + weight w fs := by
  have hold := Finset.add_sum_erase Finset.univ (fun u => weight w (stack u)) (Finset.mem_univ t)
  have hnew := Finset.add_sum_erase Finset.univ
    (fun u => weight w (Function.update stack t fs u)) (Finset.mem_univ t)
  have hrest : ∑ u ∈ Finset.univ.erase t, weight w (Function.update stack t fs u) =
      ∑ u ∈ Finset.univ.erase t, weight w (stack u) :=
    Finset.sum_congr rfl fun u hu => by
      rw [Function.update_of_ne (Finset.ne_of_mem_erase hu)]
  simp only [Function.update_self] at hnew
  unfold total
  omega

/-! ## Frames -/

/-- Some stack has such a frame. -/
def Occurs (P : F → Prop) (stack : T → List F) : Prop := ∃ t, ∃ f ∈ stack t, P f

theorem Occurs.update_iff [DecidableEq T] {P : F → Prop} {stack : T → List F} {t : T}
    {fs : List F} : Occurs P (Function.update stack t fs) ↔
      (∃ f ∈ fs, P f) ∨ ∃ u, u ≠ t ∧ ∃ f ∈ stack u, P f := by
  constructor
  · rintro ⟨u, f, hf, hP⟩
    by_cases hu : u = t
    · subst hu
      rw [Function.update_self] at hf
      exact .inl ⟨f, hf, hP⟩
    · rw [Function.update_of_ne hu] at hf
      exact .inr ⟨u, hu, f, hf, hP⟩
  · rintro (⟨f, hf, hP⟩ | ⟨u, hu, f, hf, hP⟩)
    · exact ⟨t, f, by rwa [Function.update_self], hP⟩
    · exact ⟨u, f, by rwa [Function.update_of_ne hu], hP⟩

/-- What a step keeps of the frames, when those it drops do not count. -/
theorem Occurs.update [DecidableEq T] {P : F → Prop} {stack : T → List F} {t : T} {fs : List F}
    (h : Occurs P stack) (hkeep : ∀ f ∈ stack t, P f → ∃ f ∈ fs, P f) :
    Occurs P (Function.update stack t fs) := by
  obtain ⟨u, f, hf, hP⟩ := h
  by_cases hu : u = t
  · subst hu
    exact Occurs.update_iff.mpr (.inl (hkeep f hf hP))
  · exact Occurs.update_iff.mpr (.inr ⟨u, hu, f, hf, hP⟩)

/-- Each frame of a stack, with those below it. -/
def Tower (P : F → List F → Prop) : List F → Prop
  | [] => True
  | f :: fs => P f fs ∧ Tower P fs

theorem Tower.tail {P : F → List F → Prop} (h : Tower P (f :: fs)) : Tower P fs := h.2

end Stacks
