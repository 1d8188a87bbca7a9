/-!
# Event counters

The counter behind an event descriptor.  A read takes all of it, and waits or is refused at
zero; a write adds to it, and waits or is refused where the sum passes the bound.

* `Run.total` — a run ends with what has been written since the last read.
* `Run.read_total` — a read returns what has been written since the read before it.
* `Run.le` — the counter stays within its bound.
-/

set_option autoImplicit false

namespace EventCounter

/-- What a call has come to. -/
inductive Label where
  | read (value : Nat)
  | write (value : Nat)
  /-- a read or write that waits, or fails at once -/
  | noRead (waits : Bool)
  | noWrite (value : Nat) (waits : Bool)
  deriving DecidableEq, Repr

variable (max : Nat) (blocking : Bool)

inductive Step : Nat → Label → Nat → Prop where
  | read {c : Nat} : 0 < c → Step c (.read c) 0
  | write {c v : Nat} : c + v ≤ max → Step c (.write v) (c + v)
  | noRead : Step 0 (.noRead blocking) 0
  | noWrite {c v : Nat} : max < c + v → Step c (.noWrite v blocking) c

inductive Run : Nat → List Label → Nat → Prop where
  | nil {c : Nat} : Run c [] c
  | cons {c d e : Nat} {l : Label} {ls : List Label} :
    Step max blocking c l d → Run d ls e → Run c (l :: ls) e

/-- What is there after a call. -/
def after (c : Nat) : Label → Nat
  | .read _ => 0
  | .write v => c + v
  | .noRead _ | .noWrite _ _ => c

/-- What has been written since the last read, or since the beginning. -/
def total (c : Nat) (ls : List Label) : Nat := ls.foldl after c

variable {max : Nat} {blocking : Bool} {c d e : Nat} {l : Label} {ls ls' : List Label}

theorem Step.after (h : Step max blocking c l d) : d = after c l := by
  cases h <;> rfl

theorem Step.le (h : Step max blocking c l d) (hc : c ≤ max) : d ≤ max := by
  cases h with
  | read | noRead => exact Nat.zero_le max
  | write hle => exact hle
  | noWrite => exact hc

theorem Run.append (h : Run max blocking c ls d) (h' : Run max blocking d ls' e) :
    Run max blocking c (ls ++ ls') e := by
  induction h with
  | nil => exact h'
  | cons hstep _ ih => exact .cons hstep (ih h')

theorem Run.split : ∀ {ls : List Label} {c : Nat}, Run max blocking c (ls ++ ls') e →
    ∃ d, Run max blocking c ls d ∧ Run max blocking d ls' e
  | [], _, h => ⟨_, .nil, h⟩
  | _ :: _, _, .cons hstep h =>
    let ⟨d, hfst, hsnd⟩ := Run.split h
    ⟨d, .cons hstep hfst, hsnd⟩

/-- **The counter** holds what has been written since the last read. -/
theorem Run.total (h : Run max blocking c ls d) : d = total c ls := by
  induction h with
  | nil => rfl
  | cons hstep _ ih => rw [ih, hstep.after]; rfl

/-- **A read** returns what has been written since the last read. -/
theorem Run.read_total {pre post : List Label} {n : Nat}
    (h : Run max blocking c (pre ++ .read n :: post) e) : n = EventCounter.total c pre := by
  obtain ⟨d, hpre, hpost⟩ := h.split
  cases hpost with
  | cons hstep _ =>
    cases hstep
    exact hpre.total

theorem Run.le (h : Run max blocking c ls d) (hc : c ≤ max) : d ≤ max := by
  induction h with
  | nil => exact hc
  | cons hstep _ ih => exact ih (hstep.le hc)

end EventCounter
