import Mathlib.Data.List.TakeWhile
import Mathlib.Order.Lattice

/-!
# Lists that are kept in descending order

`insert key x l` puts an element behind all elements of a list whose keys are not smaller.
A list that is filled in this way is a stable sort of what has been put in.

* `Sorts.foldl` — a run of insertions sorts its elements.
* `Sorts.find` — the first element with a property has the greatest key of those that have it.
-/

set_option autoImplicit false

namespace Descending

variable {α κ : Type} [LinearOrder κ] {key : α → κ}

/-- The element behind all whose keys are at least its own. -/
def insert (key : α → κ) (x : α) (l : List α) : List α :=
  l.takeWhile (fun y => key x ≤ key y) ++ x :: l.dropWhile fun y => key x ≤ key y

/-- The elements in descending order of their keys; of elements with one key the order is
kept. -/
structure Sorts (key : α → κ) (entries l : List α) : Prop where
  perm : l.Perm entries
  descending : l.Pairwise fun a b => key b ≤ key a
  stable : ∀ k, l.filter (fun a => key a = k) = entries.filter fun a => key a = k

theorem Sorts.nil : Sorts key ([] : List α) [] := ⟨List.Perm.refl _, List.Pairwise.nil, fun _ => rfl⟩

/-- In a descending list the elements from the first smaller one on are smaller. -/
theorem dropWhile_lt {l : List α} (h : l.Pairwise fun a b => key b ≤ key a) (x : α) :
    ∀ b ∈ l.dropWhile (fun y => key x ≤ key y), key b < key x := by
  cases hd : l.dropWhile (fun y => key x ≤ key y) with
  | nil => simp
  | cons c rest =>
    have hnot := List.head?_dropWhile_not (fun y => decide (key x ≤ key y)) l
    rw [hd] at hnot
    have hc : key c < key x := by simpa using hnot
    have hpair : (c :: rest).Pairwise fun a b => key b ≤ key a :=
      h.sublist (hd ▸ List.dropWhile_sublist _)
    intro b hb
    rcases List.mem_cons.mp hb with rfl | hb
    · exact hc
    · exact lt_of_le_of_lt ((List.pairwise_cons.mp hpair).1 b hb) hc

theorem Sorts.insert {entries l : List α} (h : Sorts key entries l) (x : α) :
    Sorts key (entries ++ [x]) (insert key x l) := by
  have hsplit := List.takeWhile_append_dropWhile (p := fun y => decide (key x ≤ key y)) (l := l)
  have hlow := dropWhile_lt h.descending x
  have hhigh : ∀ a ∈ l.takeWhile (fun y => key x ≤ key y), key x ≤ key a := fun a ha => by
    simpa using List.mem_takeWhile_imp (p := fun y => decide (key x ≤ key y)) ha
  unfold Descending.insert
  generalize l.takeWhile (fun y => decide (key x ≤ key y)) = front at hsplit hhigh ⊢
  generalize l.dropWhile (fun y => decide (key x ≤ key y)) = back at hsplit hlow ⊢
  subst hsplit
  constructor
  · have hcons : (front ++ x :: back).Perm (x :: entries) := List.perm_middle.trans (h.perm.cons x)
    exact hcons.trans (List.perm_append_singleton x entries).symm
  · obtain ⟨hfront, hback, hbetween⟩ := List.pairwise_append.mp h.descending
    refine List.pairwise_append.mpr ⟨hfront, List.pairwise_cons.mpr ⟨fun b hb => (hlow b hb).le, hback⟩, ?_⟩
    intro a ha b hb
    rcases List.mem_cons.mp hb with rfl | hb
    · exact hhigh a ha
    · exact hbetween a ha b hb
  · intro k
    have hstable := h.stable k
    rw [List.filter_append] at hstable
    rw [List.filter_append, List.filter_cons, List.filter_append, ← hstable]
    by_cases hk : key x = k
    · -- behind the new element there is none with its key
      have hnone : back.filter (fun a => decide (key a = k)) = [] := by
        rw [List.filter_eq_nil_iff]
        intro b hb
        have hlt := hlow b hb
        rw [hk] at hlt
        simpa using hlt.ne
      simp [hk, hnone]
    · simp [hk]

/-- **A run of insertions sorts its elements.** -/
theorem Sorts.foldl {entries l : List α} (h : Sorts key entries l) : ∀ xs : List α,
    Sorts key (entries ++ xs) (xs.foldl (fun l x => Descending.insert key x l) l) := by
  intro xs
  induction xs generalizing entries l with
  | nil => simpa using h
  | cons x xs ih => simpa using ih (h.insert x)

/-- **The first element with a property** has the greatest key of all that have it. -/
theorem Sorts.find {entries l : List α} (h : Sorts key entries l) {p : α → Bool} {x : α}
    (hfind : l.find? p = some x) :
    x ∈ entries ∧ p x = true ∧ ∀ y ∈ entries, p y = true → key y ≤ key x := by
  obtain ⟨hx, front, back, rfl, hfront⟩ := List.find?_eq_some_iff_append.mp hfind
  refine ⟨h.perm.mem_iff.mp (by simp), hx, fun y hy hp => ?_⟩
  have hdescending := (List.pairwise_append.mp h.descending).2.1
  rcases List.mem_append.mp (h.perm.mem_iff.mpr hy) with hy | hy
  · have hnot := hfront y hy
    simp [hp] at hnot
  · rcases List.mem_cons.mp hy with rfl | hy
    · exact le_refl _
    · exact (List.pairwise_cons.mp hdescending).1 y hy

theorem Sorts.find_none {entries l : List α} (h : Sorts key entries l) {p : α → Bool}
    (hfind : l.find? p = none) : ∀ y ∈ entries, p y = false := by
  intro y hy
  have hnot := List.find?_eq_none.mp hfind y (h.perm.mem_iff.mpr hy)
  simpa using hnot

end Descending
