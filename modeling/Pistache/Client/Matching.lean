import Pistache.Client.Connection

/-!
# Responses and their requests

A run of a connection, in which every byte received carries the number of the request whose
response it belongs to.  A response that is handed to a request should be what a new parser
makes of the segments received since the request was sent, and none of their bytes should
belong to the response of an earlier request.

* `ParserBase.Alike.parse` — a parser that has been reset behind a response differs from a new
  one in the code of its message alone, and that is overwritten.
* `matching` — the responses are matched in all runs in which no request is sent on a parser
  that holds something, and no byte of an earlier response is received for a request.
-/

set_option autoImplicit false

namespace Pistache.Client

open Http Replay Resumable

variable {H : Type}

/-! ## A run -/

/-- A segment whose bytes are tagged with the request that they answer. -/
abbrev Segment := List (UInt8 × Nat)

def Segment.bytes (segment : Segment) : Bytes := segment.map Prod.fst

/-- What happens on a connection. -/
inductive Op where
  | performImpl
  | received (segment : Segment)
  | timeout
  | error (what : String)

/-- A response handed to a request, and the segments received since the request was sent. -/
structure Resolution (H : Type) where
  request : Nat
  response : Response H
  segments : List Segment

structure Trace (H : Type) where
  connection : Connection H
  /-- The number of requests sent. -/
  performed : Nat := 0
  /-- The segments received since the last request was sent. -/
  since : List Segment := []
  resolved : List (Resolution H) := []

namespace Trace

variable (registry : Registry H)

def new (maxResponseSize : Nat) : Trace H := { connection := .new maxResponseSize }

def resolution (since : List Segment) : Event H → Option (Resolution H)
  | .resolve request response => some ⟨request, response, since⟩
  | .reject .. => none

def step (t : Trace H) : Op → Trace H
  | .performImpl =>
    { t with
      connection := t.connection.performImpl t.performed
      performed := t.performed + 1
      since := [] }
  | .received segment =>
    let (events, connection) := t.connection.handleResponsePacket registry segment.bytes
    let since := t.since ++ [segment]
    { t with
      connection, since
      resolved := events.filterMap (resolution since) ++ t.resolved }
  | .timeout => { t with connection := t.connection.handleTimeout.2 }
  | .error what => { t with connection := (t.connection.handleError what).2 }

def run : Trace H → List Op → Trace H
  | t, [] => t
  | t, op :: ops => run (t.step registry op) ops

end Trace

/-- The response that a parser makes of segments, of which the last one completes it. -/
def parseSegments (registry : Registry H) : ParserBase H Unit → List Bytes → Option (Response H)
  | _, [] => none
  | p, x :: xs =>
    match p.feed x with
    | none => none
    | some p =>
      match ResponseParser.parse registry p with
      | (.Done, p) => if xs = [] then some p.message else none
      | (.thrown _, _) => none
      | (_, p) => parseSegments registry p xs

/-- Every response handed to a request is what a new parser makes of the segments received
since the request was sent, none of whose bytes belongs to the response of an earlier
request. -/
def Trace.Matched (registry : Registry H) (maxResponseSize : Nat) (t : Trace H) : Prop :=
  ∀ r ∈ t.resolved,
    parseSegments registry (ResponseParser.new maxResponseSize) (r.segments.map Segment.bytes) =
      some r.response ∧
    ∀ segment ∈ r.segments, ∀ b ∈ segment, r.request ≤ b.2

/-- The parser holds nothing, apart from the code of a message that has been handed on. -/
def Idle (p : ParserBase H Unit) : Prop :=
  p.buffer.bytes = [] ∧ p.currentStep = 0 ∧ p.bodyStep = {} ∧
    { p.message with code_ := ⟨0⟩ } = Response.new

/-- A request is sent on an idle parser only, and while one is pending no byte of the response
of an earlier one is received. -/
def Trace.Clean (t : Trace H) : Op → Prop
  | .performImpl => Idle t.connection.parser
  | .received segment => ∀ request ∈ t.connection.requestEntry, ∀ b ∈ segment, request ≤ b.2
  | _ => True

/-- So do all steps of a run. -/
def Trace.CleanRun (registry : Registry H) : Trace H → List Op → Prop
  | _, [] => True
  | t, op :: ops => t.Clean op ∧ CleanRun registry (t.step registry op) ops

section Decidable

variable [DecidableEq H]

instance (p : ParserBase H Unit) : Decidable (Idle p) := by
  unfold Idle
  infer_instance

instance (t : Trace H) : ∀ op, Decidable (t.Clean op)
  | .performImpl => inferInstanceAs (Decidable (Idle _))
  | .received segment => inferInstanceAs
      (Decidable (∀ request ∈ t.connection.requestEntry, ∀ b ∈ segment, request ≤ b.2))
  | .timeout => .isTrue trivial
  | .error _ => .isTrue trivial

instance decidableCleanRun (registry : Registry H) : ∀ (t : Trace H) (ops : List Op),
    Decidable (t.CleanRun registry ops)
  | _, [] => .isTrue trivial
  | t, op :: ops => @instDecidableAnd _ _ _ (decidableCleanRun registry (t.step registry op) ops)

end Decidable

/-! ## The code of the message -/

/-- The messages differ in their code at most. -/
def SameButCode (m m' : Response H) : Prop := { m with code_ := m'.code_ } = m'

theorem SameButCode.set {m m' : Response H} (h : SameButCode m m') (c : Code) :
    { m with code_ := c } = { m' with code_ := c } := by
  rw [← h]

def setCode (c : Code) (m : Response H) : Response H := { m with code_ := c }

/-- The status line reads nothing of the message and sets its code at most; it sets it where it
comes to the headers. -/
theorem line_apply (xs : Bytes) :
    (∃ c rest, ∀ m : Response H, ResponseLineStep.apply m xs = ⟨.Next, setCode c m, rest⟩) ∨
    (∃ r, r ≠ .Next ∧ r ≠ .Done ∧ ((∀ m : Response H, ResponseLineStep.apply m xs = ⟨r, m, xs⟩) ∨
      ∃ c, ∀ m : Response H, ResponseLineStep.apply m xs = ⟨r, setCode c m, xs⟩)) := by
  have hversion : (∃ rest, ∀ m : Response H, ResponseLineStep.version m xs = ⟨.Next, m, rest⟩) ∨
      ∃ r rest, r ≠ .Next ∧ r ≠ .Done ∧
        ∀ m : Response H, ResponseLineStep.version m xs = ⟨r, m, rest⟩ := by
    unfold ResponseLineStep.version
    split
    · exact .inr ⟨_, _, by simp, by simp, fun _ => rfl⟩
    · split
      · exact .inr ⟨_, _, by simp, by simp, fun _ => rfl⟩
      · split
        · exact .inr ⟨_, _, by simp, by simp, fun _ => rfl⟩
        · exact .inl ⟨_, fun _ => rfl⟩
  have hcode : ∀ ys, (∃ c rest, ∀ m : Response H,
        ResponseLineStep.code m ys = ⟨.Next, setCode c m, rest⟩) ∨
      ∃ r rest, r ≠ .Next ∧ r ≠ .Done ∧
        ∀ m : Response H, ResponseLineStep.code m ys = ⟨r, m, rest⟩ := by
    intro ys
    unfold ResponseLineStep.code
    split
    · exact .inr ⟨_, _, by simp, by simp, fun _ => rfl⟩
    · split
      · exact .inl ⟨_, _, fun _ => rfl⟩
      · exact .inr ⟨_, _, by simp, by simp, fun _ => rfl⟩
  have hreason : ∀ ys, (∃ rest, ∀ m : Response H,
        ResponseLineStep.reason m ys = ⟨.Next, m, rest⟩) ∨
      ∀ m : Response H, ResponseLineStep.reason m ys = ⟨.Again, m, ys⟩ := by
    intro ys
    unfold ResponseLineStep.reason
    split
    · exact .inr fun _ => rfl
    · exact .inl ⟨_, fun _ => rfl⟩
  unfold ResponseLineStep.apply revert andThen
  rcases hversion with ⟨rest, hv⟩ | ⟨r, rest, hn, hd, hv⟩
  · rcases hcode rest with ⟨c, rest', hc⟩ | ⟨r, rest', hn, hd, hc⟩
    · rcases hreason rest' with ⟨rest'', hr⟩ | hr
      · exact .inl ⟨c, rest'', fun m => by simp [hv, hc, hr]⟩
      · exact .inr ⟨.Again, by simp, by simp, .inr ⟨c, fun m => by simp [hv, hc, hr]⟩⟩
    · exact .inr ⟨r, hn, hd, .inl fun m => by simp [hv, hc, hn]⟩
  · exact .inr ⟨r, hn, hd, .inl fun m => by simp [hv, hn]⟩

/-! ## Parsers that differ in the code -/

/-- The parsers differ in the code of their messages at most, and that only in front of the
status line. -/
structure Alike (p q : ParserBase H Unit) : Prop where
  buffer : p.buffer = q.buffer
  currentStep : p.currentStep = q.currentStep
  bodyStep : p.bodyStep = q.bodyStep
  message : p.message = q.message ∨ p.currentStep = 0 ∧ SameButCode p.message q.message

namespace Alike

variable (registry : Registry H) {p q : ParserBase H Unit}

theorem feed (h : Alike p q) (x : Bytes) :
    (p.feed x = none ∧ q.feed x = none) ∨
      ∃ p' q', p.feed x = some p' ∧ q.feed x = some q' ∧ Alike p' q' := by
  unfold ParserBase.feed
  rw [← h.buffer]
  cases p.buffer.feed x with
  | none => exact .inl ⟨rfl, rfl⟩
  | some buffer => exact .inr ⟨_, _, rfl, rfl, rfl, h.currentStep, h.bodyStep, h.message⟩

/-- In front of the status line. -/
theorem work_parse {m m' : Response H} (hm : SameButCode m m') (b : BodyStep) (xs : Bytes) :
    Work.parse registry ResponseLineStep.apply (0, ⟨m, b⟩) xs =
        Work.parse registry ResponseLineStep.apply (0, ⟨m', b⟩) xs ∨
      ∃ r, r ≠ .Done ∧ ∀ m : Response H,
        Work.parse registry ResponseLineStep.apply (0, ⟨m, b⟩) xs = ⟨r, (0, ⟨m, b⟩), xs⟩ := by
  have hwork : ∀ m : Response H, Work.parse registry ResponseLineStep.apply (0, ⟨m, b⟩) xs =
      let o := ResponseLineStep.apply m xs
      if o.result = .Next then
        chain State.Next ((Work.allSteps registry ResponseLineStep.apply).drop 1)
          (1, ⟨o.state, b⟩) o.rest
      else ⟨o.result, (0, ⟨o.state, b⟩), o.rest⟩ := fun _ => rfl
  rcases line_apply (H := H) xs with ⟨c, rest, hline⟩ | ⟨r, hn, hd, hline | ⟨c, hline⟩⟩
  · refine .inl ?_
    rw [hwork, hwork, hline, hline, show setCode c m = setCode c m' from hm.set c]
  · refine .inr ⟨r, hd, fun m => ?_⟩
    rw [hwork, hline]
    exact if_neg hn
  · refine .inl ?_
    rw [hwork, hwork, hline, hline, show setCode c m = setCode c m' from hm.set c]

/-- **A call of `parse`** has the same result, and behind the status line the parsers are
equal. -/
theorem parse (h : Alike p q) :
    (ResponseParser.parse registry p).1 = (ResponseParser.parse registry q).1 ∧
      Alike (ResponseParser.parse registry p).2 (ResponseParser.parse registry q).2 ∧
      ((ResponseParser.parse registry p).1 = .Done →
        (ResponseParser.parse registry p).2 = (ResponseParser.parse registry q).2) := by
  obtain ⟨⟨m, b⟩, buffer, k⟩ := p
  obtain ⟨⟨m', b'⟩, buffer', k'⟩ := q
  obtain ⟨hbuffer, hk, hb, hm⟩ := h
  simp only at hbuffer hk hb hm
  subst hbuffer hk hb
  rcases hm with rfl | ⟨rfl, hm⟩
  · exact ⟨rfl, ⟨rfl, rfl, rfl, .inl rfl⟩, fun _ => rfl⟩
  have hparse : ∀ m : Response H, ResponseParser.parse registry ⟨⟨m, b⟩, buffer, 0⟩ =
      let o := Work.parse registry ResponseLineStep.apply (0, ⟨m, b⟩) buffer.unread
      (o.result, ⟨o.state.2, buffer.advanceTo o.rest, o.state.1⟩) := fun _ => rfl
  rw [hparse, hparse]
  rcases work_parse registry hm b buffer.unread with he | ⟨r, hd, he⟩
  · rw [he]
    exact ⟨rfl, ⟨rfl, rfl, rfl, .inl rfl⟩, fun _ => rfl⟩
  · rw [he, he]
    exact ⟨rfl, ⟨rfl, rfl, rfl, .inr ⟨rfl, hm⟩⟩, fun h => absurd h hd⟩

/-- Alike parsers make the same response of the same segments. -/
theorem parseSegments : ∀ (xs : List Bytes) {p q : ParserBase H Unit}, Alike p q →
    Client.parseSegments registry p xs = Client.parseSegments registry q xs
  | [], _, _, _ => rfl
  | x :: xs, p, q, h => by
    unfold Client.parseSegments
    rcases h.feed x with ⟨hp, hq⟩ | ⟨p', q', hp, hq, h'⟩
    · rw [hp, hq]
    · rw [hp, hq]
      obtain ⟨hresult, halike, hdone⟩ := h'.parse registry
      dsimp only
      revert hresult halike hdone
      generalize ResponseParser.parse registry p' = o
      generalize ResponseParser.parse registry q' = o'
      obtain ⟨r, p''⟩ := o
      obtain ⟨r', q''⟩ := o'
      rintro hresult halike hdone
      simp only at hresult halike hdone
      subst hresult
      cases r with
      | Done =>
        rw [hdone rfl]
      | thrown e => rfl
      | Again => exact parseSegments xs halike
      | Next => exact parseSegments xs halike

end Alike

/-- An idle parser is like a new one. -/
theorem Idle.alike {p : ParserBase H Unit} (h : Idle p) :
    Alike p (ResponseParser.new p.buffer.maxSize) := by
  obtain ⟨hbytes, hstep, hbody, hmessage⟩ := h
  obtain ⟨hread, hunread⟩ := List.append_eq_nil_iff.mp hbytes
  refine ⟨?_, hstep, hbody, .inr ⟨hstep, hmessage⟩⟩
  calc p.buffer = ⟨p.buffer.read, p.buffer.unread, p.buffer.maxSize⟩ := rfl
    _ = ArrayStreamBuf.new p.buffer.maxSize := by rw [hread, hunread]; rfl

/-! ## The invariant -/

/-- While a request is pending, the parser goes on like a new one that has been given the
segments received since the request was sent, and they belong to no earlier one. -/
structure Inv (registry : Registry H) (maxResponseSize : Nat) (t : Trace H) : Prop where
  matched : t.Matched registry maxResponseSize
  maxSize : t.connection.parser.buffer.maxSize = maxResponseSize
  pending : ∀ request, t.connection.requestEntry = some request →
    (∀ xs, parseSegments registry (ResponseParser.new maxResponseSize)
        (t.since.map Segment.bytes ++ xs) = parseSegments registry t.connection.parser xs) ∧
      ∀ segment ∈ t.since, ∀ b ∈ segment, request ≤ b.2

namespace Inv

variable {registry : Registry H} {maxResponseSize : Nat} {t : Trace H}

theorem new : Inv registry maxResponseSize (Trace.new maxResponseSize) where
  matched _ h := nomatch h
  maxSize := rfl
  pending _ h := nomatch h

theorem feed_maxSize {p p' : ParserBase H Unit} {x : Bytes} (h : p.feed x = some p') :
    p'.buffer.maxSize = p.buffer.maxSize := by
  obtain ⟨buffer, hbuffer, rfl⟩ := Option.map_eq_some_iff.mp h
  obtain ⟨-, rfl⟩ := ArrayStreamBuf.feed_eq_some.mp hbuffer
  rfl

theorem parse_maxSize (registry : Registry H) (p : ParserBase H Unit) :
    (ResponseParser.parse registry p).2.buffer.maxSize = p.buffer.maxSize := rfl

/-- Nothing is pending behind an error or a timeout. -/
theorem handleError (h : Inv registry maxResponseSize t) (parser : ParserBase H Unit)
    (hmax : parser.buffer.maxSize = maxResponseSize) (error : String) (since : List Segment) :
    Inv registry maxResponseSize
      { t with
        connection := ({ t.connection with parser }.handleError error).2
        since
        resolved := (({ t.connection with parser }.handleError error).1.filterMap
          (Trace.resolution since)) ++ t.resolved } := by
  unfold Connection.handleError
  cases hentry : t.connection.requestEntry with
  | none =>
    exact ⟨h.matched, hmax, fun request hr => by simp [hentry] at hr⟩
  | some request =>
    exact ⟨h.matched, hmax, fun request hr => nomatch hr⟩

theorem received (h : Inv registry maxResponseSize t) {segment : Segment}
    (hclean : t.Clean (.received segment)) :
    Inv registry maxResponseSize (t.step registry (.received segment)) := by
  have howned : ∀ request, t.connection.requestEntry = some request →
      ∀ s ∈ t.since ++ [segment], ∀ b ∈ s, request ≤ b.2 := by
    intro request hr s hs
    rcases List.mem_append.mp hs with hs | hs
    · exact (h.pending request hr).2 s hs
    · obtain rfl := List.mem_singleton.mp hs
      exact hclean request hr
  simp only [Trace.step, Connection.handleResponsePacket]
  cases hfeed : t.connection.parser.feed segment.bytes with
  | none => exact h.handleError t.connection.parser h.maxSize _ _
  | some p =>
    have hmax := (feed_maxSize hfeed).trans h.maxSize
    have hmax' := (parse_maxSize registry p).trans hmax
    -- what the segments make, by the outcome of the call
    have hsegments : ∀ request, t.connection.requestEntry = some request → ∀ xs,
        parseSegments registry (ResponseParser.new maxResponseSize)
          ((t.since ++ [segment]).map Segment.bytes ++ xs) =
        parseSegments registry t.connection.parser (segment.bytes :: xs) := by
      intro request hr xs
      rw [List.map_append, List.append_assoc, (h.pending request hr).1]
      rfl
    simp only [parseSegments, hfeed] at hsegments
    dsimp only
    revert hsegments hmax'
    generalize ResponseParser.parse registry p = o
    obtain ⟨r, p'⟩ := o
    intro hmax' hsegments
    have hwaits : (∀ request, t.connection.requestEntry = some request → ∀ xs,
        parseSegments registry (ResponseParser.new maxResponseSize)
          ((t.since ++ [segment]).map Segment.bytes ++ xs) = parseSegments registry p' xs) →
        Inv registry maxResponseSize
          { t with connection := { t.connection with parser := p' }
                   since := t.since ++ [segment] } := fun hnext =>
      ⟨h.matched, hmax', fun request hr => ⟨hnext request hr, howned request hr⟩⟩
    cases r with
    | Again => exact hwaits hsegments
    | Next => exact hwaits hsegments
    | thrown e => exact h.handleError p' hmax' _ _
    | Done =>
      cases hentry : t.connection.requestEntry with
      | none => exact ⟨h.matched, hmax', fun request hr => nomatch hr⟩
      | some request =>
        refine ⟨fun resolution hres => ?_, hmax', fun request hr => nomatch hr⟩
        rcases List.mem_cons.mp hres with rfl | hres
        · have := hsegments request hentry []
          rw [List.append_nil] at this
          exact ⟨this, howned request hentry⟩
        · exact h.matched resolution hres

/-- **One step.** -/
theorem step (h : Inv registry maxResponseSize t) {op : Op} (hclean : t.Clean op) :
    Inv registry maxResponseSize (t.step registry op) := by
  cases op with
  | received segment => exact h.received hclean
  | performImpl =>
    refine ⟨h.matched, h.maxSize, fun request _ => ⟨fun xs => ?_, fun _ hs => nomatch hs⟩⟩
    have halike := (hclean : Idle t.connection.parser).alike
    rw [h.maxSize] at halike
    exact (halike.parseSegments registry xs).symm
  | timeout =>
    simp only [Trace.step, Connection.handleTimeout]
    cases hentry : t.connection.requestEntry with
    | none => exact ⟨h.matched, h.maxSize, fun request hr => by simp [hentry] at hr⟩
    | some request => exact ⟨h.matched, h.maxSize, fun request hr => nomatch hr⟩
  | error what =>
    simp only [Trace.step, Connection.handleError]
    cases hentry : t.connection.requestEntry with
    | none => exact ⟨h.matched, h.maxSize, fun request hr => by simp [hentry] at hr⟩
    | some request => exact ⟨h.matched, h.maxSize, fun request hr => nomatch hr⟩

theorem run : ∀ (ops : List Op) {t : Trace H}, Inv registry maxResponseSize t →
    t.CleanRun registry ops → Inv registry maxResponseSize (t.run registry ops)
  | [], _, h, _ => h
  | _ :: ops, _, h, ⟨hclean, hrest⟩ => Inv.run ops (h.step hclean) hrest

end Inv

/-- **Matching.** In every run in which requests are sent on idle parsers only and no byte of
the response of an earlier request is received for a request, the responses handed to requests
are their own. -/
theorem matching (registry : Registry H) (maxResponseSize : Nat) (ops : List Op)
    (hclean : (Trace.new maxResponseSize).CleanRun registry ops) :
    ((Trace.new maxResponseSize).run registry ops).Matched registry maxResponseSize :=
  (Inv.run ops Inv.new hclean).matched

/-- The segment `text` of the response of a request. -/
def answer (request : Nat) (text : String) : Op := .received ((lit text).map (·, request))

/-- A response in two segments, and the next one. -/
theorem matching_two_responses :
    ((Trace.new 4096).run Registry.basic [.performImpl,
      answer 0 "HTTP/1.1 200 OK\r\nContent-Length: 5\r\n\r\nhe", answer 0 "llo", .performImpl,
      answer 1 "HTTP/1.1 404 Not Found\r\nContent-Length: 0\r\n\r\n"]).Matched
        Registry.basic 4096 :=
  matching Registry.basic 4096 _ (by decide)

/-- The response of a request that has timed out is handed to the next one. -/
theorem matching_late_response :
    ¬((Trace.new 4096).run Registry.basic [.performImpl, .timeout, .performImpl,
      answer 0 "HTTP/1.1 200 OK\r\nContent-Length: 0\r\n\r\n"]).Matched Registry.basic 4096 := by
  intro h
  have howned : ∀ r ∈ ((Trace.new 4096).run Registry.basic [.performImpl, .timeout, .performImpl,
      answer 0 "HTTP/1.1 200 OK\r\nContent-Length: 0\r\n\r\n"]).resolved,
      ∀ segment ∈ r.segments, ∀ b ∈ segment, r.request ≤ b.2 := fun r hr => (h r hr).2
  revert howned
  decide

end Pistache.Client
