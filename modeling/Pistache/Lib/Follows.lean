import Mathlib.Data.List.Nodup

/-!
# Neighbours in a list

`Follows l a b` when `b` stands right after `a` in `l`.

* `follows_concat`, `follows_cons` — at the two ends of the list.
* `Follows.unique`, `Follows.ne_last` — in a list without duplicates.
-/

set_option autoImplicit false

variable {α : Type}

def Follows (l : List α) (a b : α) : Prop := ∃ l₁ l₂, l = l₁ ++ a :: b :: l₂

namespace Follows

variable {l : List α} {a b c x : α}

theorem left_mem (h : Follows l a b) : a ∈ l := by
  obtain ⟨l₁, l₂, rfl⟩ := h
  exact List.mem_append_right _ (List.mem_cons_self ..)

theorem right_mem (h : Follows l a b) : b ∈ l := by
  obtain ⟨l₁, l₂, rfl⟩ := h
  exact List.mem_append_right _ (List.mem_cons_of_mem _ (List.mem_cons_self ..))

theorem cons (h : Follows l a b) : Follows (x :: l) a b := by
  obtain ⟨l₁, l₂, rfl⟩ := h
  exact ⟨x :: l₁, l₂, rfl⟩

theorem concat (h : Follows l a b) : Follows (l ++ [x]) a b := by
  obtain ⟨l₁, l₂, rfl⟩ := h
  exact ⟨l₁, l₂ ++ [x], by simp⟩

theorem head : Follows (a :: b :: l) a b := ⟨[], l, rfl⟩

theorem last (h : l.getLast? = some a) : Follows (l ++ [x]) a x := by
  obtain ⟨l, rfl⟩ := List.getLast?_eq_some_iff.mp h
  exact ⟨l, [], by simp⟩

/-- After the first one, neighbours are neighbours in the rest. -/
theorem of_cons (h : Follows (x :: l) a b) : (a = x ∧ l.head? = some b) ∨ Follows l a b := by
  obtain ⟨l₁, l₂, hl⟩ := h
  cases l₁ with
  | nil =>
    obtain ⟨rfl, rfl⟩ := List.cons.inj hl
    exact .inl ⟨rfl, rfl⟩
  | cons y l₁ =>
    obtain ⟨-, rfl⟩ := List.cons.inj hl
    exact .inr ⟨l₁, l₂, rfl⟩

/-- Before the last one, neighbours are neighbours in the rest. -/
theorem of_concat (h : Follows (l ++ [x]) a b) : (l.getLast? = some a ∧ b = x) ∨ Follows l a b := by
  obtain ⟨l₁, l₂, hl⟩ := h
  rcases List.eq_nil_or_concat l₂ with rfl | ⟨l₂, y, rfl⟩
  · have hsplit : l ++ [x] = (l₁ ++ [a]) ++ [b] := by simpa using hl
    obtain ⟨rfl, hb⟩ := List.append_inj' hsplit rfl
    exact .inl ⟨by simp, (List.singleton_inj.mp hb).symm⟩
  · have hsplit : l ++ [x] = (l₁ ++ a :: b :: l₂) ++ [y] := by simpa using hl
    obtain ⟨rfl, -⟩ := List.append_inj' hsplit rfl
    exact .inr ⟨l₁, l₂, rfl⟩

theorem unique (hl : l.Nodup) (h : Follows l a b) (h' : Follows l a c) : b = c := by
  induction l with
  | nil => cases h.left_mem
  | cons x l ih =>
    have hx := (List.nodup_cons.mp hl).1
    rcases h.of_cons with ⟨rfl, hb⟩ | hb
    · rcases h'.of_cons with ⟨-, hc⟩ | hc
      · exact Option.some.inj (hb.symm.trans hc)
      · exact absurd hc.left_mem hx
    · rcases h'.of_cons with ⟨rfl, -⟩ | hc
      · exact absurd hb.left_mem hx
      · exact ih (List.nodup_cons.mp hl).2 hb hc

/-- The last one has nobody after it. -/
theorem ne_last (hl : l.Nodup) (h : Follows l a b) : l.getLast? ≠ some a := by
  obtain ⟨l₁, l₂, rfl⟩ := h
  intro hlast
  have hmem : a ∈ b :: l₂ := by
    rw [show l₁ ++ a :: b :: l₂ = (l₁ ++ [a]) ++ b :: l₂ by simp,
      List.getLast?_append_of_ne_nil _ (List.cons_ne_nil _ _)] at hlast
    exact List.mem_of_getLast? hlast
  have hnodup := (List.nodup_append.mp hl).2.1
  exact (List.nodup_cons.mp hnodup).1 hmem

end Follows
