import Mathlib.Logic.Relation

/-!
# Threads that wait for each other

`waits t u` says that `t` waits for what `u` holds.  Threads are deadlocked when they wait for
each other in a cycle; a thread that waits for itself is one.

* `not_deadlocked_of_rank` — there is no cycle where a rank grows along it.
-/

set_option autoImplicit false

namespace WaitsFor

variable {T : Type} {waits : T → T → Prop}

def Deadlocked (waits : T → T → Prop) : Prop := ∃ t, Relation.TransGen waits t t

/-- A rank that grows from a thread that is waited for to the one that it waits for, if that one
waits, too. -/
theorem lt_of_transGen {rank : T → Nat}
    (h : ∀ s t u v, waits s t → waits t u → waits u v → rank t < rank u) {s t u v : T}
    (hst : waits s t) (htu : Relation.TransGen waits t u) (huv : waits u v) :
    rank t < rank u := by
  induction htu generalizing v with
  | single hwaits => exact h s t _ v hst hwaits huv
  | tail hpath hwaits ih =>
    obtain ⟨p, -, hp⟩ := Relation.TransGen.tail'_iff.mp hpath
    exact Nat.lt_trans (ih hwaits) (h p _ _ v hp hwaits huv)

/-- **No cycle** where the rank of the threads that wait and are waited for grows. -/
theorem not_deadlocked_of_rank (rank : T → Nat)
    (h : ∀ s t u v, waits s t → waits t u → waits u v → rank t < rank u) :
    ¬Deadlocked waits := by
  rintro ⟨t, ht⟩
  obtain ⟨s, -, hs⟩ := Relation.TransGen.tail'_iff.mp ht
  obtain ⟨u, hu, -⟩ := Relation.TransGen.head'_iff.mp ht
  exact Nat.lt_irrefl _ (lt_of_transGen h hs ht hu)

/-- A thread that waits for itself. -/
theorem deadlocked_of_self {t : T} (h : waits t t) : Deadlocked waits := ⟨t, .single h⟩

end WaitsFor
