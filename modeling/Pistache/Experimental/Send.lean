import Pistache.Common.Bytes

/-!
# Sending a request

The loop of `Transport::asyncSendRequestImpl`, over the answers of a non-blocking send.  A send
takes as many bytes as it can, which may be fewer than it was given.  The loop ends where the
running total equals the length that was still to be sent before the last send.

* `sending_of_reached`, `sending_of_not_reached` — the loop after each number of sends.
* `send_reports_iff` — the loop ends in time and reports what it has done, exactly for the
  answers for which no send behind a partial one completes the buffer or makes two successive
  totals add up to its size, and none answers `EAGAIN`.
-/

set_option autoImplicit false

namespace Pistache.Experimental

/-! ## The loop -/

/-- What a send answers.  `bytes n` takes `n` bytes, or all it has been given. -/
inductive SendResult where
  | bytes (n : Nat)
  | EAGAIN
  | ECONNREFUSED
  | error
  deriving DecidableEq, Repr

/-- How an iteration ends: with another one, or with the loop. -/
inductive Iteration where
  | again (totalWritten : Nat)
  /-- `req.resolve(totalWritten)` -/
  | resolve (totalWritten : Nat)
  | throws (what : String)
  /-- `conn->handleError(error)` -/
  | handleError (error : String)
  deriving DecidableEq, Repr

/-- An iteration on a buffer of `size` bytes.  Every call of the function is a first try. -/
def iteration (size totalWritten : Nat) : SendResult → Iteration
  | .bytes n =>
    let len := size - totalWritten
    let totalWritten := totalWritten + min n len
    if totalWritten = len then .resolve totalWritten else .again totalWritten
  | .EAGAIN => .throws "Unimplemented, fix me!"
  | .ECONNREFUSED => .handleError "Could not send, connection refused"
  | .error => .handleError "Could not send request"

/-- The loop, with the bytes that the sends have taken. -/
structure Sending where
  totalWritten : Nat := 0
  sent : Bytes := []
  /-- how the loop has ended -/
  outcome : Option Iteration := none
  deriving DecidableEq, Repr

/-- One send. -/
def Sending.step (buffer : Bytes) (s : Sending) (result : SendResult) : Sending :=
  if s.outcome.isSome then s
  else
    match iteration buffer.length s.totalWritten result with
    | .again total =>
      { s with
        totalWritten := total
        sent := s.sent ++ (buffer.drop s.totalWritten).take (total - s.totalWritten) }
    | .resolve total =>
      { totalWritten := total
        sent := s.sent ++ (buffer.drop s.totalWritten).take (total - s.totalWritten)
        outcome := some (.resolve total) }
    | outcome => { s with outcome := some outcome }

/-- The loop after the first `n` answers. -/
def sending (buffer : Bytes) (results : Nat → SendResult) : Nat → Sending
  | 0 => {}
  | n + 1 => (sending buffer results n).step buffer (results n)

/-! ## What it should do -/

/-- The bytes taken are a prefix of the buffer, success means all of them, the loop ends with
the send that completes the buffer, and wherever it ends it has resolved the promise or has
reported an error. -/
structure Reports (buffer : Bytes) (results : Nat → SendResult) : Prop where
  inOrder : ∀ n, (sending buffer results n).sent <+: buffer
  whole : ∀ n total, (sending buffer results n).outcome = some (.resolve total) →
    (sending buffer results n).sent = buffer
  ends : ∀ n k, (sending buffer results n).outcome = none → results n = .bytes k →
    (sending buffer results (n + 1)).sent = buffer →
    ∃ total, (sending buffer results (n + 1)).outcome = some (.resolve total)
  reported : ∀ n outcome, (sending buffer results n).outcome = some outcome →
    (∃ total, outcome = .resolve total) ∨ ∃ error, outcome = .handleError error

/-! ## The answers -/

/-- The bytes that the first `n` sends take. -/
def taken (size : Nat) (results : Nat → SendResult) : Nat → Nat
  | 0 => 0
  | n + 1 =>
    match results n with
    | .bytes k => taken size results n + min k (size - taken size results n)
    | _ => taken size results n

/-- The sends before the `n`-th have taken bytes, and no two successive totals among theirs add
up to the size. -/
def Reached (size : Nat) (results : Nat → SendResult) (n : Nat) : Prop :=
  ∀ m < n, (∃ k, results m = .bytes k) ∧ taken size results m + taken size results (m + 1) ≠ size

/-- No send that is reached answers `EAGAIN`, and none behind a partial one completes the buffer
or makes the totals before and behind it add up to the size. -/
def Clean (size : Nat) (results : Nat → SendResult) : Prop :=
  ∀ n, Reached size results n → results n ≠ .EAGAIN ∧
    ∀ k, results n = .bytes k → 0 < taken size results n →
      taken size results (n + 1) ≠ size ∧ taken size results n + taken size results (n + 1) ≠ size

section

variable {buffer : Bytes} {size : Nat} {results : Nat → SendResult} {n : Nat}

theorem taken_le (size : Nat) (results : Nat → SendResult) : ∀ n, taken size results n ≤ size
  | 0 => Nat.zero_le _
  | n + 1 => by
    have ih := taken_le size results n
    simp only [taken]
    split <;> omega

theorem Reached.succ {k : Nat} (h : Reached size results n) (hk : results n = .bytes k)
    (hsum : taken size results n + taken size results (n + 1) ≠ size) :
    Reached size results (n + 1) := by
  intro m hm
  rcases Nat.lt_succ_iff_lt_or_eq.mp hm with hm | rfl
  · exact h m hm
  · exact ⟨⟨k, hk⟩, hsum⟩

theorem Reached.pred (h : Reached size results (n + 1)) : Reached size results n :=
  fun m hm => h m (Nat.lt_succ_of_lt hm)

/-- An iteration that takes bytes. -/
theorem iteration_bytes {k : Nat} (hk : results n = .bytes k) :
    iteration size (taken size results n) (results n) =
      if taken size results n + taken size results (n + 1) = size
      then .resolve (taken size results (n + 1)) else .again (taken size results (n + 1)) := by
  have hle := taken_le size results n
  simp only [taken, hk, iteration]
  congr 1
  exact propext ⟨fun h => by omega, fun h => by omega⟩

/-- What is sent goes on where the last send has stopped. -/
theorem taken_append {k : Nat} (hk : results n = .bytes k) :
    buffer.take (taken size results n) ++ (buffer.drop (taken size results n)).take
        (taken size results (n + 1) - taken size results n) =
      buffer.take (taken size results (n + 1)) := by
  have hle : taken size results n ≤ taken size results (n + 1) := by
    simp only [taken, hk]
    omega
  rw [← List.take_add, Nat.add_sub_cancel' hle]

/-- **While the loop runs.** -/
theorem sending_of_reached : ∀ {n : Nat}, Reached buffer.length results n →
    sending buffer results n =
      { totalWritten := taken buffer.length results n
        sent := buffer.take (taken buffer.length results n) }
  | 0, _ => rfl
  | n + 1, h => by
    obtain ⟨⟨k, hk⟩, hsum⟩ := h n (Nat.lt_succ_self n)
    have ih := sending_of_reached h.pred
    rw [sending, ih, Sending.step, if_neg (by simp)]
    simp only [iteration_bytes hk, if_neg hsum, taken_append hk]

/-- The send that ends the loop. -/
theorem sending_succ (h : Reached buffer.length results n) :
    sending buffer results (n + 1) =
      match iteration buffer.length (taken buffer.length results n) (results n) with
      | .again total => { totalWritten := total, sent := buffer.take total }
      | .resolve total =>
        { totalWritten := total, sent := buffer.take total, outcome := some (.resolve total) }
      | outcome =>
        { totalWritten := taken buffer.length results n
          sent := buffer.take (taken buffer.length results n)
          outcome := some outcome } := by
  rw [sending, sending_of_reached h, Sending.step, if_neg (by simp)]
  cases hr : results n with
  | bytes k =>
    rw [← hr, iteration_bytes hr]
    by_cases hsum : taken buffer.length results n + taken buffer.length results (n + 1) =
        buffer.length
    · simp only [if_pos hsum, taken_append hr]
    · simp only [if_neg hsum, taken_append hr]
  | EAGAIN => rfl
  | ECONNREFUSED => rfl
  | error => rfl

/-- **Behind its end** the loop stays as it is. -/
theorem sending_of_not_reached : ∀ {n : Nat}, ¬Reached buffer.length results n →
    ∃ m < n, Reached buffer.length results m ∧
      sending buffer results n = sending buffer results (m + 1) ∧
      (sending buffer results (m + 1)).outcome ≠ none
  | 0, h => absurd (fun m hm => absurd hm (Nat.not_lt_zero m)) h
  | n + 1, h => by
    by_cases hn : Reached buffer.length results n
    · refine ⟨n, Nat.lt_succ_self n, hn, rfl, ?_⟩
      rw [sending_succ hn]
      cases hr : results n with
      | bytes k =>
        have hsum : taken buffer.length results n + taken buffer.length results (n + 1) =
            buffer.length := by
          by_contra hsum
          exact h (hn.succ hr hsum)
        rw [← hr, iteration_bytes hr, if_pos hsum]
        simp
      | EAGAIN => simp [iteration]
      | ECONNREFUSED => simp [iteration]
      | error => simp [iteration]
    · obtain ⟨m, hm, hreached, heq, hout⟩ := sending_of_not_reached hn
      refine ⟨m, Nat.lt_succ_of_lt hm, hreached, ?_, hout⟩
      rw [sending, heq, Sending.step, if_pos (Option.isSome_iff_ne_none.mpr hout)]

/-- While it has no outcome, the loop runs. -/
theorem reached_of_running (h : (sending buffer results n).outcome = none) :
    Reached buffer.length results n := by
  by_contra hn
  obtain ⟨m, -, -, heq, hout⟩ := sending_of_not_reached hn
  exact hout (heq ▸ h)

/-- An outcome comes from a send that is reached. -/
theorem outcome_cases {outcome : Iteration}
    (h : (sending buffer results n).outcome = some outcome) :
    ∃ m, Reached buffer.length results m ∧
      sending buffer results n = sending buffer results (m + 1) ∧
      (sending buffer results (m + 1)).outcome = some outcome := by
  have hn : ¬Reached buffer.length results n := fun hn => by
    rw [sending_of_reached hn] at h
    cases h
  obtain ⟨m, -, hm, heq, -⟩ := sending_of_not_reached hn
  exact ⟨m, hm, heq, heq ▸ h⟩

/-- **The bytes taken** are those of the buffer, up to the total. -/
theorem sending_sent (buffer : Bytes) (results : Nat → SendResult) (n : Nat) :
    ∃ total, (sending buffer results n).sent = buffer.take total := by
  by_cases hn : Reached buffer.length results n
  · exact ⟨_, by rw [sending_of_reached hn]⟩
  · obtain ⟨m, -, hm, heq, -⟩ := sending_of_not_reached hn
    rw [heq, sending_succ hm]
    split
    · exact ⟨_, rfl⟩
    · exact ⟨_, rfl⟩
    · exact ⟨_, rfl⟩

theorem take_taken_eq (h : buffer.take (taken buffer.length results n) = buffer) :
    taken buffer.length results n = buffer.length := by
  have hlen := congrArg List.length h
  rw [List.length_take] at hlen
  have hle := taken_le buffer.length results n
  omega

end

/-! ## The result -/

theorem Reports.clean {buffer : Bytes} {results : Nat → SendResult} (h : Reports buffer results) :
    Clean buffer.length results := by
  intro n hn
  have hnone : (sending buffer results n).outcome = none := by rw [sending_of_reached hn]
  refine ⟨fun hr => ?_, fun k hk hpos => ?_⟩
  · have hout : (sending buffer results (n + 1)).outcome =
        some (.throws "Unimplemented, fix me!") := by rw [sending_succ hn, hr, iteration]
    rcases h.reported (n + 1) _ hout with ⟨total, h⟩ | ⟨error, h⟩
    · cases h
    · cases h
  · have hstep := sending_succ hn
    rw [iteration_bytes hk] at hstep
    have hsum : taken buffer.length results n + taken buffer.length results (n + 1) ≠
        buffer.length := by
      intro hsum
      rw [if_pos hsum] at hstep
      have hsent := h.whole (n + 1) (taken buffer.length results (n + 1)) (by rw [hstep])
      rw [hstep] at hsent
      have hall := take_taken_eq hsent
      omega
    refine ⟨fun hall => ?_, hsum⟩
    rw [if_neg hsum] at hstep
    have hsent : (sending buffer results (n + 1)).sent = buffer := by
      rw [hstep, hall]
      exact List.take_length
    obtain ⟨total, hout⟩ := h.ends n k hnone hk hsent
    rw [hstep] at hout
    cases hout

theorem Clean.reports {buffer : Bytes} {results : Nat → SendResult}
    (h : Clean buffer.length results) : Reports buffer results where
  inOrder n := by
    obtain ⟨total, hsent⟩ := sending_sent buffer results n
    rw [hsent]
    exact List.take_prefix _ _
  whole n total hout := by
    obtain ⟨m, hm, heq, hout⟩ := outcome_cases hout
    have hstep := sending_succ hm
    cases hr : results m with
    | bytes k =>
      rw [iteration_bytes hr] at hstep
      by_cases hsum : taken buffer.length results m + taken buffer.length results (m + 1) =
          buffer.length
      · rw [if_pos hsum] at hstep
        -- nothing has been taken before, so this send has taken the whole buffer
        have hzero : taken buffer.length results m = 0 := by
          by_contra hpos
          exact ((h m hm).2 k hr (Nat.pos_of_ne_zero hpos)).2 hsum
        rw [heq, hstep, show taken buffer.length results (m + 1) = buffer.length by omega]
        exact List.take_length
      · rw [if_neg hsum] at hstep
        rw [hstep] at hout
        cases hout
    | EAGAIN => exact absurd hr (h m hm).1
    | ECONNREFUSED =>
      rw [hstep, hr, iteration] at hout
      cases hout
    | error =>
      rw [hstep, hr, iteration] at hout
      cases hout
  ends n k hnone hk hsent := by
    have hn := reached_of_running hnone
    have hstep := sending_succ hn
    rw [iteration_bytes hk] at hstep
    by_cases hsum : taken buffer.length results n + taken buffer.length results (n + 1) =
        buffer.length
    · rw [if_pos hsum] at hstep
      exact ⟨_, by rw [hstep]⟩
    · rw [if_neg hsum] at hstep
      rw [hstep] at hsent
      have hall := take_taken_eq hsent
      have hpos : 0 < taken buffer.length results n := by omega
      exact absurd hall ((h n hn).2 k hk hpos).1
  reported n outcome hout := by
    obtain ⟨m, hm, -, hout⟩ := outcome_cases hout
    rw [sending_succ hm] at hout
    cases hr : results m with
    | bytes k =>
      rw [iteration_bytes hr] at hout
      by_cases hsum : taken buffer.length results m + taken buffer.length results (m + 1) =
          buffer.length
      · rw [if_pos hsum] at hout
        exact .inl ⟨_, (Option.some.inj hout).symm⟩
      · rw [if_neg hsum] at hout
        cases hout
    | EAGAIN => exact absurd hr (h m hm).1
    | ECONNREFUSED =>
      rw [hr, iteration] at hout
      exact .inr ⟨_, (Option.some.inj hout).symm⟩
    | error =>
      rw [hr, iteration] at hout
      exact .inr ⟨_, (Option.some.inj hout).symm⟩

/-- **The loop reports what it has done** exactly for clean answers. -/
theorem send_reports_iff (buffer : Bytes) (results : Nat → SendResult) :
    Reports buffer results ↔ Clean buffer.length results :=
  ⟨Reports.clean, Clean.reports⟩

/-- Two bytes of three are a success; two sends of one byte each never end. -/
theorem send_short : ¬Reports [1, 2, 3] (fun _ => .bytes 1) ∧ ¬Reports [1, 2] (fun _ => .bytes 1) := by
  refine ⟨fun h => ?_, fun h => ?_⟩
  · exact absurd (h.whole 2 2 (by decide)) (by decide)
  · obtain ⟨total, hout⟩ := h.ends 1 1 (by decide) rfl (by decide)
    rw [show (sending [1, 2] (fun _ => .bytes 1) 2).outcome = none by decide] at hout
    cases hout

end Pistache.Experimental
