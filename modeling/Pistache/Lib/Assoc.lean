import Mathlib.Data.List.Sigma

/-!
# Association lists in an order of their own

Supplement to `List.dlookup`, `List.kreplace` and `List.kerase` for lists whose order matters.

Principal results: `dlookup_split` — where the entry of a key stands, and what replacing or
erasing it leaves of the list; `dlookup_insert_self`, `dlookup_insert_ne` — a list that holds one
entry more, in any order.
-/

set_option autoImplicit false

namespace Assoc

variable {κ β : Type} [DecidableEq κ]

abbrev Entries (κ β : Type) := List (Sigma fun _ : κ => β)

theorem kreplace_cons_eq (a : κ) (b c : β) (l : Entries κ β) :
    List.kreplace a b (⟨a, c⟩ :: l : Entries κ β) = ⟨a, b⟩ :: l :=
  List.lookmap_cons_some _ _ (if_pos rfl)

theorem kreplace_cons_ne {a a' : κ} (h : a ≠ a') (b c : β) (l : Entries κ β) :
    List.kreplace a b (⟨a', c⟩ :: l : Entries κ β) = ⟨a', c⟩ :: l.kreplace a b :=
  List.lookmap_cons_none _ _ (if_neg h)

theorem dlookup_split {a : κ} {c : β} {l : Entries κ β} (h : l.dlookup a = some c) :
    ∃ l₁ l₂, l = l₁ ++ ⟨a, c⟩ :: l₂ ∧ a ∉ l₁.keys ∧
      (∀ b, l.kreplace a b = l₁ ++ ⟨a, b⟩ :: l₂) ∧ l.kerase a = l₁ ++ l₂ := by
  induction l with
  | nil => simp at h
  | cons s l ih =>
    obtain ⟨key, d⟩ := s
    by_cases heq : a = key
    · subst heq
      rw [List.dlookup_cons_eq] at h
      obtain rfl : d = c := Option.some.inj h
      exact ⟨[], l, rfl, by simp, fun b => kreplace_cons_eq a b d l, List.kerase_cons_eq rfl⟩
    · rw [List.dlookup_cons_ne _ _ heq] at h
      obtain ⟨l₁, l₂, hl, hnot, hrep, hera⟩ := ih h
      refine ⟨⟨key, d⟩ :: l₁, l₂, by rw [hl]; rfl, by simp [heq, hnot], fun b => ?_, ?_⟩
      · rw [kreplace_cons_ne heq, hrep b]
        rfl
      · rw [List.kerase_cons_ne heq, hera]
        rfl

theorem kreplace_middle {a : κ} {l₁ : Entries κ β} (h : a ∉ l₁.keys) (b c : β)
    (l₂ : Entries κ β) :
    List.kreplace a b (l₁ ++ ⟨a, c⟩ :: l₂ : Entries κ β) = l₁ ++ ⟨a, b⟩ :: l₂ := by
  induction l₁ with
  | nil => exact kreplace_cons_eq a b c l₂
  | cons s l₁ ih =>
    rw [List.keys_cons, List.mem_cons, not_or] at h
    rw [List.cons_append, kreplace_cons_ne h.1, ih h.2]
    rfl

theorem dlookup_middle {a : κ} {l₁ : Entries κ β} (h : a ∉ l₁.keys) (b : β) (l₂ : Entries κ β) :
    (l₁ ++ ⟨a, b⟩ :: l₂ : Entries κ β).dlookup a = some b := by
  rw [List.dlookup_append, List.dlookup_eq_none.mpr h, Option.none_or, List.dlookup_cons_eq]

theorem dlookup_middle_ne {a a' : κ} (h : a' ≠ a) (l₁ : Entries κ β) (b : β)
    (l₂ : Entries κ β) :
    (l₁ ++ ⟨a, b⟩ :: l₂ : Entries κ β).dlookup a' = (l₁ ++ l₂).dlookup a' := by
  rw [List.dlookup_append, List.dlookup_append, List.dlookup_cons_ne _ _ h]

theorem dlookup_kreplace_self {a : κ} {l : Entries κ β} {c : β} (h : l.dlookup a = some c) (b : β) :
    (l.kreplace a b).dlookup a = some b := by
  obtain ⟨l₁, l₂, -, hnot, hrep, -⟩ := dlookup_split h
  rw [hrep]
  exact dlookup_middle hnot b l₂

theorem dlookup_kreplace_ne {a a' : κ} (hne : a' ≠ a) {l : Entries κ β} {c : β}
    (h : l.dlookup a = some c) (b : β) : (l.kreplace a b).dlookup a' = l.dlookup a' := by
  obtain ⟨l₁, l₂, hl, -, hrep, -⟩ := dlookup_split h
  rw [hrep, hl, dlookup_middle_ne hne, dlookup_middle_ne hne]

/-! ## One entry more -/

section Insert

variable {a : κ} {b : β} {l l' : Entries κ β}

theorem nodupKeys_insert (hp : l'.Perm (⟨a, b⟩ :: l)) (hnone : l.dlookup a = none)
    (hl : l.NodupKeys) : l'.NodupKeys := by
  rw [List.perm_nodupKeys hp, List.nodupKeys_cons]
  exact ⟨List.dlookup_eq_none.mp hnone, hl⟩

theorem dlookup_insert_self (hp : l'.Perm (⟨a, b⟩ :: l)) (hnone : l.dlookup a = none) :
    l'.dlookup a = some b := by
  have hkey : a ∈ l'.keys := List.mem_keys.mpr ⟨b, hp.mem_iff.mpr (by simp)⟩
  obtain ⟨c, hc⟩ := Option.isSome_iff_exists.mp (List.dlookup_isSome.mpr hkey)
  have hmem : ⟨a, c⟩ ∈ (⟨a, b⟩ :: l : Entries κ β) := hp.mem_iff.mp (List.of_mem_dlookup hc)
  rcases List.mem_cons.mp hmem with heq | hin
  · rw [hc]
    cases heq
    rfl
  · exact absurd (List.mem_keys.mpr ⟨c, hin⟩) (List.dlookup_eq_none.mp hnone)

theorem dlookup_insert_ne (hp : l'.Perm (⟨a, b⟩ :: l)) (hnone : l.dlookup a = none)
    (hl : l.NodupKeys) {a' : κ} (hne : a' ≠ a) : l'.dlookup a' = l.dlookup a' := by
  rw [List.perm_dlookup a' (nodupKeys_insert hp hnone hl) hp, List.dlookup_cons_ne _ _ hne]

end Insert

end Assoc
