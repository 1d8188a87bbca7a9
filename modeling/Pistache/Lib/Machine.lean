/-!
# Runs of a machine

A machine takes one step for each event.  `run` takes the steps of a list of events, and
`Always P` says that each event of a run meets `P` in the state in which it happens.

* `Always.inv` — what every step under the condition preserves holds after the run.
* `Always.imp` — what a step under the condition does, every step of the run does.
* `run_inv` — the same without a condition.
-/

set_option autoImplicit false

namespace Machine

variable {σ ε : Type}

def run (step : σ → ε → σ) : σ → List ε → σ
  | s, [] => s
  | s, event :: events => run step (step s event) events

def Always (step : σ → ε → σ) (P : σ → ε → Prop) : σ → List ε → Prop
  | _, [] => True
  | s, event :: events => P s event ∧ Always step P (step s event) events

variable {step : σ → ε → σ} {P : σ → ε → Prop}

instance Always.decidable [∀ s event, Decidable (P s event)] :
    ∀ (s : σ) (events : List ε), Decidable (Always step P s events)
  | _, [] => inferInstanceAs (Decidable True)
  | s, event :: events =>
    have := Always.decidable (step s event) events
    inferInstanceAs (Decidable (_ ∧ _))

theorem run_append : ∀ (events later : List ε) (s : σ),
    run step s (events ++ later) = run step (run step s events) later
  | [], _, _ => rfl
  | event :: events, later, s => run_append events later (step s event)

theorem Always.append_iff : ∀ (events later : List ε) (s : σ),
    Always step P s (events ++ later) ↔
      Always step P s events ∧ Always step P (run step s events) later
  | [], _, _ => (iff_of_eq (true_and _)).symm
  | event :: events, later, s => by
    rw [List.cons_append, Always, Always, run, append_iff events later, and_assoc]

/-- Invariants under a condition on the events. -/
theorem Always.inv {inv : σ → Prop} (hstep : ∀ s event, inv s → P s event → inv (step s event)) :
    ∀ (events : List ε) (s : σ), inv s → Always step P s events → inv (run step s events)
  | [], _, h, _ => h
  | event :: events, s, h, ⟨hP, hrest⟩ =>
    Always.inv hstep events (step s event) (hstep s event h hP) hrest

/-- From one condition on the events to another one, with an invariant. -/
theorem Always.imp {Q : σ → ε → Prop} {inv : σ → Prop}
    (hstep : ∀ s event, inv s → P s event → Q s event ∧ inv (step s event)) :
    ∀ (events : List ε) (s : σ), inv s → Always step P s events → Always step Q s events
  | [], _, _, _ => trivial
  | event :: events, s, h, ⟨hP, hrest⟩ =>
    have ⟨hQ, hinv⟩ := hstep s event h hP
    ⟨hQ, Always.imp hstep events (step s event) hinv hrest⟩

/-- Invariants. -/
theorem run_inv {inv : σ → Prop} (hstep : ∀ s event, inv s → inv (step s event)) :
    ∀ (events : List ε) (s : σ), inv s → inv (run step s events)
  | [], _, h => h
  | event :: events, s, h => run_inv hstep events (step s event) (hstep s event h)

end Machine
