import Pistache.Mailbox.PollableInvariant

/-!
# `PollableQueue` loses nothing

* `Accounts.wake` — an item that a parked consumer has not popped makes the descriptor readable, or
  a producer is still to do so.
* `Accounts.drains` — a consumer that runs on pops all that has been written.
* `delivers` — over every interleaving.
-/

set_option autoImplicit false

namespace Pistache.Mailbox

namespace Pollable

section

variable {T : Type} {s : System T}

/-! ## Wake-ups -/

/-- When nothing has been linked to the tail, and nobody is about to, nothing waits. -/
theorem Inv.waiting_eq_nil {q : PollableQueue T} {waiting : List (Nat × T)} (h : Inv q waiting)
    (hnext : q.next q.tail = none) (hlink : ∀ i a b, q.producers i ≠ .link a b) :
    waiting = [] := by
  cases waiting with
  | nil => rfl
  | cons p rest =>
    rcases h.links q.tail p.1 .head with hsome | ⟨-, i, hi⟩
    · rw [hnext] at hsome
      cases hsome
    · exact absurd hi (hlink i _ _)

/-- No wake-up is lost. -/
theorem Accounts.wake (h : Accounts s) (hparked : s.queue.consumer = .parked)
    (hne : s.popped ≠ s.exchanged) :
    0 < s.queue.eventFd ∨ ∃ i, (s.queue.producers i).YetToWrite := by
  obtain ⟨waiting, hinv, hexchanged⟩ := h
  by_cases hyet : ∃ i, (s.queue.producers i).YetToWrite
  · exact .inr hyet
  · have hno : ∀ i, ¬ (s.queue.producers i).YetToWrite := fun i hi => hyet ⟨i, hi⟩
    by_cases hnext : s.queue.next s.queue.tail = none
    · have hnil := hinv.waiting_eq_nil hnext fun i a b hi => hno i (.inr ⟨a, b, hi⟩)
      rw [hnil, held, hparked] at hexchanged
      exact absurd (by rw [hexchanged]; simp [Consumer.entry]) hne
    · rcases hinv.wake (.inl hparked) hnext with hevent | ⟨i, hi⟩
      · exact .inl hevent
      · exact .inr ⟨i, .inl hi⟩

/-- How far the consumer is from parking, items apart. -/
def Consumer.distance (eventFd : Nat) : Consumer → Nat
  | parked => if eventFd = 0 then 0 else 5
  | pop => 4
  | read none => 3
  | read (some _) => 2
  | again => if eventFd = 0 then 2 else 6
  | take _ => 1

/-- How many steps the consumer has to take, at most. -/
def rank (s : System T) : Nat :=
  4 * (s.exchanged.length - s.popped.length) + s.queue.consumer.distance s.queue.eventFd

theorem popEntry_eventFd (q : PollableQueue T) : q.popEntry.2.eventFd = q.eventFd := by
  unfold PollableQueue.popEntry
  split <;> rfl

theorem consume_producers (q : PollableQueue T) : q.consume.producers = q.producers := by
  have hpop : q.popEntry.2.producers = q.producers := by
    unfold PollableQueue.popEntry
    split <;> rfl
  unfold PollableQueue.consume
  split
  · split <;> rfl
  · exact hpop
  · split <;> rfl
  · exact hpop
  · rfl

/-- A consumer that is not parked in front of an empty descriptor comes closer to it. -/
theorem Accounts.rank_lt (h : Accounts s)
    (hgoes : s.queue.consumer = .parked → s.queue.eventFd ≠ 0) :
    rank (s.step .consume) < rank s := by
  obtain ⟨waiting, hinv, hexchanged⟩ := h
  simp only [rank, System.step, System.pushes, System.pops, PollableQueue.step,
    PollableQueue.consume, List.append_nil]
  cases hc : s.queue.consumer with
  | parked =>
    have hpos : 0 < s.queue.eventFd := Nat.pos_of_ne_zero (hgoes hc)
    dsimp only
    rw [if_pos hpos, List.append_nil]
    simp only [Consumer.distance, if_neg (hgoes hc)]
    omega
  | pop =>
    dsimp only
    rw [List.append_nil]
    cases s.queue.popEntry.1 <;> simp only [Consumer.distance] <;> omega
  | read ret =>
    dsimp only
    rw [List.append_nil]
    by_cases hpos : 0 < s.queue.eventFd
    · rw [if_pos hpos]
      cases ret <;> simp [Consumer.distance, Consumer.returned]
    · rw [if_neg hpos]
      have hzero : s.queue.eventFd = 0 := by omega
      cases ret <;> simp [Consumer.distance, Consumer.returned, hzero]
  | again =>
    dsimp only
    rw [List.append_nil, popEntry_eventFd]
    cases s.queue.popEntry.1 with
    | none =>
      simp only [Consumer.distance, Consumer.returned]
      split <;> omega
    | some entry =>
      simp only [Consumer.distance, Consumer.returned]
      split <;> omega
  | take entry =>
    obtain ⟨v, hv⟩ := Option.isSome_iff_exists.mp (hinv.holding entry (by rw [hc]; rfl)).2.2
    have hlen := congrArg List.length hexchanged
    rw [held, hc] at hlen
    simp only [Consumer.entry, Consumer.distance, Option.bind_some, hv, Option.toList_some,
      List.length_append, List.length_singleton] at hlen ⊢
    omega

/-- The consumer, when it runs on, pops all that has been exchanged. -/
theorem Accounts.drains : ∀ (n : Nat) {s : System T}, rank s ≤ n → Accounts s →
    (∀ i, ¬ (s.queue.producers i).YetToWrite) →
      ∃ k, (s.run (List.replicate k .consume)).queue.consumer = .parked ∧
        (s.run (List.replicate k .consume)).popped = s.exchanged
  | n, s, hn, h, hno => by
    by_cases hdone : s.queue.consumer = .parked ∧ s.queue.eventFd = 0
    · refine ⟨0, hdone.1, ?_⟩
      by_contra hne
      rcases h.wake hdone.1 hne with hpos | ⟨i, hi⟩
      · omega
      · exact hno i hi
    · have hlt := h.rank_lt fun hparked hzero => hdone ⟨hparked, hzero⟩
      cases n with
      | zero => omega
      | succ n =>
        have hproducers : (s.step .consume).queue.producers = s.queue.producers :=
          consume_producers s.queue
        obtain ⟨k, hk⟩ := Accounts.drains n (by omega) (h.step .consume) (by rwa [hproducers])
        refine ⟨k + 1, ?_⟩
        rw [List.replicate_succ]
        have hsame : (s.step .consume).exchanged = s.exchanged := List.append_nil _
        rw [hsame] at hk
        exact hk

end

/-! ## The queue -/

/-- What a consumer can rely on. -/
structure Delivers {T : Type} (s : System T) : Prop where
  /-- each item is popped once, in the order of the exchanges -/
  order : s.popped <+: s.exchanged
  /-- an item that a parked consumer has not popped makes the descriptor readable -/
  wake : s.queue.consumer = .parked → s.popped ≠ s.exchanged →
    0 < s.queue.eventFd ∨ ∃ i, (s.queue.producers i).YetToWrite
  /-- when all have written, the consumer pops every item and parks -/
  drains : (∀ i, ¬ (s.queue.producers i).YetToWrite) →
    ∃ k, (s.run (List.replicate k .consume)).queue.consumer = .parked ∧
      (s.run (List.replicate k .consume)).popped = s.exchanged

/-- **`PollableQueue` loses no item and no wake-up**, for every interleaving of the steps of any
number of producers with those of the consumer. -/
theorem delivers {T : Type} (events : List (Event T)) : Delivers ((System.init T).run events) := by
  have h : Accounts ((System.init T).run events) := Accounts.init.run events
  have horder : ((System.init T).run events).popped <+: ((System.init T).run events).exchanged := by
    obtain ⟨waiting, -, hexchanged⟩ := h
    exact ⟨_, by rw [hexchanged, List.append_assoc]⟩
  exact ⟨horder, h.wake, h.drains _ (Nat.le_refl _)⟩

end Pollable

end Pistache.Mailbox
