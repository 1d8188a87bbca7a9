import Pistache.Http.Parser

/-!
# A message that is fed as a whole

What `parse` makes of a message that stands in the buffer of a new parser: the line of the
message, its headers and its body, each from where the step in front of it has stopped.
-/

set_option autoImplicit false

namespace Pistache.Http

open Resumable

variable {H L : Type} {registry : Registry H}

theorem HeadersStep.apply_ne_done (m : Derived H L) (xs : Bytes) :
    (HeadersStep.apply registry m xs).result ≠ .Done := by
  rw [HeadersStep.apply, revert_result]
  refine Loop.run_induction (HeadersStep.body_shrinks registry)
    (fun message cursor => ⟨.Again, message, cursor⟩) (fun _ _ => True)
    (fun o : Out State (Derived H L) UInt8 => o.result ≠ .Done) ?_ (fun _ _ _ _ _ _ => trivial)
    m xs trivial
  intro m' ys o _ ho
  unfold HeadersStep.body at ho
  repeat' split at ho
  all_goals
    cases ho
    try simp

/-- A body of declared length. -/
theorem BodyStep.apply_declared {m : Message H} {n : UInt64}
    (hlength : m.headers_.contentLength = some n) (hencoding : m.headers_.transferEncoding = none)
    (xs : Bytes) :
    BodyStep.apply ({}, m) xs =
      if xs.length < n.toNat then
        ⟨.Again, ({ bytesRead := UInt64.ofNat xs.length }, m.append xs), []⟩
      else ⟨.Done, ({}, m.append (xs.take n.toNat)), xs.drop n.toNat⟩ := by
  have hmissing : BodyStep.missing n {} = n := UInt64.sub_zero n
  unfold BodyStep.apply
  simp only [hlength, hencoding, BodyStep.parseContentLength_eq, hmissing, UInt64.zero_add]

/-- A message without a body. -/
theorem BodyStep.apply_none {m : Message H} (hlength : m.headers_.contentLength = none)
    (hencoding : m.headers_.transferEncoding = none) (xs : Bytes) :
    BodyStep.apply ({}, m) xs = ⟨.Done, ({}, m), xs⟩ := by
  unfold BodyStep.apply
  simp only [hlength, hencoding]

namespace ParserBase

variable {line : Step (Derived H L)} {p : ParserBase H L} {m : Derived H L}

/-- A new parser that has been fed. -/
theorem feed_new {maxDataSize : Nat} {data : Bytes}
    (hfeed : ({ message := m, buffer := .new maxDataSize } : ParserBase H L).feed data = some p) :
    p.toWork = ⟨m, {}⟩ ∧ p.currentStep = 0 ∧ p.buffer.unread = data := by
  obtain ⟨buffer, hbuffer, rfl⟩ := Option.map_eq_some_iff.mp hfeed
  obtain ⟨-, rfl⟩ := ArrayStreamBuf.feed_eq_some.mp hbuffer
  exact ⟨rfl, rfl, rfl⟩

/-- The head behind the line. -/
def headBehind (registry : Registry H) (o : Out State (Derived H L) UInt8) :
    Out State (Derived H L) UInt8 := HeadersStep.apply registry o.state o.rest

/-- The body behind the head. -/
def bodyBehind (o : Out State (Derived H L) UInt8) : Out State (BodyStep × Message H) UInt8 :=
  BodyStep.apply ({}, o.state.toMessage) o.rest

theorem parseHead_line (m : Derived H L) (xs : Bytes) (hnext : (line m xs).result = .Next) :
    parseHead registry line (0, m) xs =
      ⟨(headBehind registry (line m xs)).result,
        (if (headBehind registry (line m xs)).result = .Next then 2 else 1,
          (headBehind registry (line m xs)).state),
        (headBehind registry (line m xs)).rest⟩ := by
  unfold parseHead runChain headBehind
  simp only [headSteps, List.drop_zero, chain, hnext, if_true]
  by_cases hhead : (HeadersStep.apply registry (line m xs).state (line m xs).rest).result = .Next
  · simp only [hhead, if_true]
  · simp only [hhead, if_false]

/-- **The parse is the line, the head and the body.** -/
theorem parse_message (registry : Registry H) (line : Step (Derived H L))
    (hwork : p.toWork = ⟨m, {}⟩) (hstep : p.currentStep = 0) :
    ((line m p.buffer.unread).result ≠ .Next →
      (parse registry line p).1 = (line m p.buffer.unread).result) ∧
    ((line m p.buffer.unread).result = .Next →
      let head := headBehind registry (line m p.buffer.unread)
      (head.result ≠ .Next → (parse registry line p).1 = head.result) ∧
      (head.result = .Next →
        (parse registry line p).1 = (bodyBehind head).result ∧
        (parse registry line p).2.message =
          { head.state with toMessage := (bodyBehind head).state.2 } ∧
        (parse registry line p).2.buffer.unread = (bodyBehind head).rest)) := by
  have houtcome : p.outcome registry line =
      Work.parse registry line (0, ⟨m, {}⟩) p.buffer.unread := by
    rw [outcome, hwork, hstep]
  rw [Work.parse_eq registry 0 (by omega)] at houtcome
  unfold parse
  dsimp only
  rw [houtcome]
  constructor
  · intro hline
    have hhead : (parseHead registry line (0, m) p.buffer.unread).result =
        (line m p.buffer.unread).result := by
      unfold parseHead runChain
      simp only [headSteps, List.drop_zero, chain, if_neg hline]
    rw [hhead, if_neg hline]
  · intro hline
    rw [parseHead_line m p.buffer.unread hline]
    constructor
    · intro hhead
      rw [if_neg hhead]
    · intro hhead
      rw [if_pos hhead]
      exact ⟨rfl, rfl, rfl⟩

/-- A message that has been parsed to its end has a line and a head. -/
theorem parse_done (registry : Registry H) (line : Step (Derived H L))
    (hwork : p.toWork = ⟨m, {}⟩) (hstep : p.currentStep = 0)
    (hline : (line m p.buffer.unread).result ≠ .Done) (hdone : (parse registry line p).1 = .Done) :
    (line m p.buffer.unread).result = .Next ∧
      (headBehind registry (line m p.buffer.unread)).result = .Next := by
  obtain ⟨hnot, hnext⟩ := parse_message registry line hwork hstep
  have hfirst : (line m p.buffer.unread).result = .Next := by
    by_contra hne
    exact hline ((hnot hne).symm.trans hdone)
  refine ⟨hfirst, ?_⟩
  by_contra hne
  exact HeadersStep.apply_ne_done _ _ (((hnext hfirst).1 hne).symm.trans hdone)

end ParserBase

end Pistache.Http
