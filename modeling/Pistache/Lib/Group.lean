import Mathlib.Data.List.Basic
import Mathlib.Order.Lattice

/-!
# Sorted lists in groups

A list that is sorted by a key is the concatenation, key by key, of the parts with one key.
-/

set_option autoImplicit false

namespace Group

variable {α β κ : Type} [LinearOrder κ] {key : α → κ}

/-- The elements with the least key come first. -/
theorem filter_append_filter {k : κ} : ∀ {xs : List α}, (xs.map key).Pairwise (· ≤ ·) →
    (∀ x ∈ xs, k ≤ key x) →
      xs.filter (fun x => key x = k) ++ xs.filter (fun x => key x ≠ k) = xs
  | [], _, _ => rfl
  | x :: xs, hsorted, hle => by
    obtain ⟨hx, hxs⟩ := List.pairwise_cons.mp hsorted
    by_cases hk : key x = k
    · have ih := filter_append_filter hxs fun y hy => hle y (List.mem_cons_of_mem x hy)
      rw [List.filter_cons_of_pos (by simpa using hk), List.filter_cons_of_neg (by simpa using hk),
        List.cons_append, ih]
    · have hlt : k < key x := lt_of_le_of_ne (hle x List.mem_cons_self) (Ne.symm hk)
      have hne : ∀ y ∈ x :: xs, key y ≠ k := by
        intro y hy
        rcases List.mem_cons.mp hy with rfl | hy
        · exact hk
        · exact (lt_of_lt_of_le hlt (hx (key y) (List.mem_map_of_mem hy))).ne'
      rw [List.filter_eq_nil_iff.mpr fun y hy => by simpa using hne y hy,
        List.filter_eq_self.mpr fun y hy => by simpa using hne y hy, List.nil_append]

/-- **Key by key**, in the order of a list of all keys. -/
theorem flatMap_eq (f : α → List β) : ∀ {keys : List κ} {xs : List α},
    keys.Pairwise (· < ·) → (xs.map key).Pairwise (· ≤ ·) → (∀ x ∈ xs, key x ∈ keys) →
      xs.flatMap f = keys.flatMap fun k => (xs.filter fun x => key x = k).flatMap f
  | [], xs, _, _, hmem => by
    obtain rfl : xs = [] := List.eq_nil_iff_forall_not_mem.mpr fun x hx => nomatch hmem x hx
    rfl
  | k :: keys, xs, hkeys, hsorted, hmem => by
    obtain ⟨hk, hkeys⟩ := List.pairwise_cons.mp hkeys
    have hle : ∀ x ∈ xs, k ≤ key x := by
      intro x hx
      rcases List.mem_cons.mp (hmem x hx) with h | h
      · exact h.ge
      · exact (hk (key x) h).le
    have hrest : (xs.filter fun x => key x ≠ k).flatMap f =
        keys.flatMap fun k' => ((xs.filter fun x => key x ≠ k).filter fun x => key x = k').flatMap f := by
      refine flatMap_eq f hkeys ?_ fun x hx => ?_
      · exact hsorted.sublist (List.filter_sublist.map key)
      · obtain ⟨hx, hne⟩ := List.mem_filter.mp hx
        exact (List.mem_cons.mp (hmem x hx)).resolve_left (by simpa using hne)
    have hsame : ∀ k' ∈ keys, ((xs.filter fun x => key x ≠ k).filter fun x => key x = k') =
        xs.filter fun x => key x = k' := by
      intro k' hk'
      rw [List.filter_filter]
      refine List.filter_congr fun x _ => ?_
      have hne := (hk k' hk').ne'
      by_cases h : key x = k'
      · simp [h, hne]
      · simp [h]
    calc xs.flatMap f
        = (xs.filter fun x => key x = k).flatMap f ++ (xs.filter fun x => key x ≠ k).flatMap f := by
          rw [← List.flatMap_append, filter_append_filter hsorted hle]
      _ = _ := by
          rw [hrest, List.flatMap_cons]
          congr 1
          exact List.flatMap_congr fun k' hk' => by rw [hsame k' hk']

end Group
