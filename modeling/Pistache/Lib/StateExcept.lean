/-!
# Programs that keep what they have done

A program of `EStateM` ends in a state, whether it returns or throws.  `Leads P Q x` says that
from the states of `P` it ends in a state of `Q` both ways.

* `Leads.bind` — one program after another; what the first may leave behind when it throws has
  to meet the last condition too.
-/

set_option autoImplicit false

namespace StateExcept

variable {ε σ α β : Type}

theorem run_ite (c : Prop) [Decidable c] (x y : EStateM ε σ α) (s : σ) :
    (if c then x else y).run s = if c then x.run s else y.run s := by
  split <;> rfl

theorem run_map (f : α → β) (x : EStateM ε σ α) (s : σ) :
    (f <$> x).run s = match x.run s with
      | .ok a s => .ok (f a) s
      | .error e s => .error e s := rfl

/-- Where a run ends. -/
def final : EStateM.Result ε σ α → σ
  | .ok _ s | .error _ s => s

@[simp] theorem final_ok (a : α) (s : σ) : final (.ok a s : EStateM.Result ε σ α) = s := rfl

@[simp] theorem final_error (e : ε) (s : σ) : final (.error e s : EStateM.Result ε σ α) = s := rfl

def Leads (P Q : σ → Prop) (x : EStateM ε σ α) : Prop := ∀ s, P s → Q (final (x.run s))

namespace Leads

variable {P Q R : σ → Prop} {x y : EStateM ε σ α}

theorem mono {P' Q' : σ → Prop} (h : Leads P Q x) (hP : ∀ s, P' s → P s) (hQ : ∀ s, Q s → Q' s) :
    Leads P' Q' x :=
  fun s hs => hQ _ (h s (hP s hs))

theorem pure (a : α) (h : ∀ s, P s → Q s) : Leads P Q (pure a : EStateM ε σ α) := h

theorem throw (e : ε) (h : ∀ s, P s → Q s) : Leads P Q (throw e : EStateM ε σ α) := h

theorem look (h : ∀ s, P s → Q s) : Leads P Q (get : EStateM ε σ σ) := h

theorem modify {f : σ → σ} (h : ∀ s, P s → Q (f s)) :
    Leads P Q (modify f : EStateM ε σ PUnit) := h

theorem map {f : α → β} (h : Leads P Q x) : Leads P Q (f <$> x) := by
  intro s hs
  have hx := h s hs
  rw [run_map]
  cases hrun : x.run s <;> (rw [hrun] at hx; exact hx)

theorem bind {f : α → EStateM ε σ β} (hx : Leads P R x) (hf : ∀ a, Leads R Q (f a))
    (hRQ : ∀ s, R s → Q s) : Leads P Q (x >>= f) := by
  intro s hs
  have hR := hx s hs
  rw [EStateM.run_bind]
  cases hrun : x.run s with
  | ok a s' =>
    rw [hrun] at hR
    exact hf a s' hR
  | error e s' =>
    rw [hrun] at hR
    exact hRQ s' hR

/-- What comes after a look at the state may use it. -/
theorem look_bind {f : σ → EStateM ε σ β} (hf : ∀ s, P s → Q (final ((f s).run s))) :
    Leads P Q (get >>= f) := hf

theorem ite {c : Prop} [Decidable c] (hx : Leads P Q x) (hy : Leads P Q y) :
    Leads P Q (if c then x else y) := by
  split
  · exact hx
  · exact hy

end Leads

end StateExcept
