/-!
# Scanning a list up to the first suffix that satisfies a test

`scan stop xs` cuts `xs` in front of its first nonempty suffix on which `stop` holds.  A test
that looks at a bounded number of elements is `Stable`: whether it holds at a position in
front of an already found stop does not depend on what is appended behind.

* `scan_some` — a successful scan splits the list and stops where the test holds.
* `scan_append` — a successful scan is not changed by appending to the list.
* `scan_first` — it stops at the first place where the test holds.
* `scan_eq_some`, `scan_eq_none` — the result from the test at every position.
-/

set_option autoImplicit false

namespace Scan

variable {α : Type}

/-- The elements in front of the first stop, and the rest from the stop on. -/
def scan (stop : List α → Bool) : List α → Option (List α × List α)
  | [] => none
  | x :: xs =>
    if stop (x :: xs) then some ([], x :: xs)
    else (scan stop xs).map fun r => (x :: r.1, r.2)

/-- The test depends on nothing behind the first place where it holds. -/
def Stable (stop : List α → Bool) : Prop :=
  ∀ a b s : List α, b ≠ [] → stop b = true → stop (a ++ b ++ s) = stop (a ++ b)

/-- The test that looks at the first element only. -/
def atHead (p : α → Bool) : List α → Bool
  | [] => false
  | x :: _ => p x

theorem atHead_stable (p : α → Bool) : Stable (atHead p) := by
  intro a b s hb _
  cases a with
  | nil => cases b with
    | nil => exact absurd rfl hb
    | cons x b => rfl
  | cons y a => rfl

theorem scan_some {stop : List α → Bool} :
    ∀ {xs a b : List α}, scan stop xs = some (a, b) → xs = a ++ b ∧ stop b = true ∧ b ≠ []
  | [], _, _, h => by simp [scan] at h
  | x :: xs, a, b, h => by
    unfold scan at h
    split at h
    · rename_i hx
      simp only [Option.some.injEq, Prod.mk.injEq] at h
      obtain ⟨rfl, rfl⟩ := h
      exact ⟨rfl, hx, by simp⟩
    · obtain ⟨⟨a', b'⟩, hr, he⟩ := Option.map_eq_some_iff.mp h
      simp only [Prod.mk.injEq] at he
      obtain ⟨rfl, rfl⟩ := he
      obtain ⟨hxs, hs, hne⟩ := scan_some hr
      exact ⟨by rw [hxs]; rfl, hs, hne⟩

/-- There is no stop in front of the one that is found. -/
theorem scan_first {stop : List α → Bool} :
    ∀ {xs a b : List α}, scan stop xs = some (a, b) →
      ∀ {a₁ a₂ : List α} {x : α}, a = a₁ ++ x :: a₂ → stop (x :: a₂ ++ b) = false
  | [], _, _, h, _, _, _, _ => by simp [scan] at h
  | x :: xs, a, b, h, a₁, a₂, y, ha => by
    unfold scan at h
    split at h
    · simp only [Option.some.injEq, Prod.mk.injEq] at h
      rw [← h.1] at ha
      exact absurd ha (by simp)
    · rename_i hx
      obtain ⟨⟨a', b'⟩, hr, he⟩ := Option.map_eq_some_iff.mp h
      simp only [Prod.mk.injEq] at he
      obtain ⟨rfl, rfl⟩ := he
      cases a₁ with
      | nil =>
        obtain ⟨rfl, rfl⟩ := List.cons.inj ha
        rw [(scan_some hr).1, ← List.cons_append] at hx
        exact Bool.eq_false_iff.mpr hx
      | cons z a₁ => exact scan_first hr (List.cons.inj ha).2

theorem scan_append {stop : List α → Bool} (hst : Stable stop) :
    ∀ {xs a b : List α}, scan stop xs = some (a, b) →
      ∀ s, scan stop (xs ++ s) = some (a, b ++ s)
  | [], _, _, h, _ => by simp [scan] at h
  | x :: xs, a, b, h, s => by
    obtain ⟨hxs, hb, hne⟩ := scan_some h
    have hsame : stop (x :: xs ++ s) = stop (x :: xs) := by
      rw [hxs]; exact hst a b s hne hb
    unfold scan at h
    rw [List.cons_append, scan, ← List.cons_append, hsame]
    split at h
    · rename_i hx
      simp only [Option.some.injEq, Prod.mk.injEq] at h
      obtain ⟨rfl, rfl⟩ := h
      rw [if_pos hx]
    · rename_i hx
      obtain ⟨⟨a', b'⟩, hr, he⟩ := Option.map_eq_some_iff.mp h
      simp only [Prod.mk.injEq] at he
      obtain ⟨rfl, rfl⟩ := he
      rw [if_neg hx, scan_append hst hr s]
      rfl

theorem scan_eq_some {stop : List α → Bool} {b : List α} (hb : stop b = true) (hne : b ≠ []) :
    ∀ {a : List α}, (∀ a₁ x a₂, a = a₁ ++ x :: a₂ → stop (x :: a₂ ++ b) = false) →
      scan stop (a ++ b) = some (a, b)
  | [], _ => by
    cases b with
    | nil => exact absurd rfl hne
    | cons y b => rw [List.nil_append, scan, if_pos hb]
  | x :: a, h => by
    have hx : stop (x :: a ++ b) = false := h [] x a rfl
    have ih := scan_eq_some hb hne (a := a) fun a₁ y a₂ e => h (x :: a₁) y a₂ (by rw [e]; rfl)
    rw [List.cons_append, scan, ← List.cons_append, hx, ih]
    rfl

theorem scan_eq_none {stop : List α → Bool} :
    ∀ {xs : List α}, (∀ a x b, xs = a ++ x :: b → stop (x :: b) = false) → scan stop xs = none
  | [], _ => rfl
  | x :: xs, h => by
    have ih : scan stop xs = none :=
      scan_eq_none fun a y b e => h (x :: a) y b (by rw [e]; rfl)
    rw [scan, h [] x xs rfl, ih]
    rfl

/-- Without a result the test holds nowhere. -/
theorem scan_none {stop : List α → Bool} :
    ∀ {xs : List α}, scan stop xs = none → ∀ a x b, xs = a ++ x :: b → stop (x :: b) = false
  | [], _, a, x, b, hab => by simp at hab
  | y :: xs, h, a, x, b, hab => by
    unfold scan at h
    split at h
    · cases h
    · rename_i hy
      rw [Option.map_eq_none_iff] at h
      cases a with
      | nil =>
        obtain ⟨rfl, rfl⟩ := List.cons.inj hab
        exact Bool.eq_false_iff.mpr hy
      | cons z a => exact scan_none h a x b (List.cons.inj hab).2

end Scan
