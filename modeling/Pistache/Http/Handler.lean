import Pistache.Http.Parser

/-!
# The handler of a connection

`Handler::onInput`: feed a segment that was read from the socket, parse, and hand the request
to `onRequest` or answer with an error.  After a request and after an error the parser is
reset, which drops what the segment holds behind it; the connection stays open.

The peer's idle flag, its address and the sending of the response are left out.
-/

set_option autoImplicit false

namespace Pistache.Http

variable {H : Type}

/-- What `onInput` does: call `onRequest` with a request and the connection control of its
response, or send an error. -/
inductive Event (H : Type) where
  | onRequest (request : Request H) (connection : ConnectionControl)
  | send (version : Version) (code : Code) (text : String)
  deriving DecidableEq

/-- A handler: the header classes known to its parsers, and what `onRequest` throws, if it
throws. -/
structure Handler (H : Type) where
  registry : Registry H
  onRequest : Request H → Option Exn

namespace Handler

variable (handler : Handler H)

/-- The two `catch` clauses. -/
def sendError (version : Version) : Exn → Event H
  | .http code reason => .send version code reason
  | .std what => .send version .Internal_Server_Error what

/-- `onInput` behind a successful `parse`. -/
def serve (request : Request H) : List (Event H) :=
  let event := .onRequest request (request.headers_.connection.getD .Close)
  match handler.onRequest request with
  | none => [event]
  | some e => [event, sendError request.version_ e]

def onInput (parser : ParserBase H RequestLine) (input : Bytes) :
    List (Event H) × ParserBase H RequestLine :=
  match parser.feed input with
  | none =>
    let parser := RequestParser.reset parser
    ([sendError parser.message.version_
      (.http .Request_Entity_Too_Large "Request exceeded maximum buffer size")],
      RequestParser.reset parser)
  | some parser =>
    match RequestParser.parse handler.registry parser with
    | (.Done, parser) => (handler.serve parser.message, RequestParser.reset parser)
    | (.thrown e, parser) => ([sendError parser.message.version_ e], RequestParser.reset parser)
    | (_, parser) => ([], parser)

/-- The segments that a connection receives, one after the other. -/
def run : ParserBase H RequestLine → List Bytes → List (Event H) × ParserBase H RequestLine
  | parser, [] => ([], parser)
  | parser, input :: inputs =>
    let (events, parser) := handler.onInput parser input
    let (events', parser) := run parser inputs
    (events ++ events', parser)

theorem run_append (parser : ParserBase H RequestLine) :
    ∀ (xs ys : List Bytes), handler.run parser (xs ++ ys) =
      ((handler.run parser xs).1 ++ (handler.run (handler.run parser xs).2 ys).1,
        (handler.run (handler.run parser xs).2 ys).2)
  | [], ys => rfl
  | x :: xs, ys => by
    simp only [List.cons_append, run]
    rw [run_append (handler.onInput parser x).2 xs ys]
    simp [List.append_assoc]

end Handler

/-- A handler that throws nothing. -/
def Handler.quiet : Handler Unit := ⟨Registry.basic, fun _ => none⟩

/-- The requests handed to `onRequest`. -/
def requests (events : List (Event H)) : List (Request H) :=
  events.filterMap fun
    | .onRequest request _ => some request
    | .send .. => none

@[simp] theorem requests_append (es es' : List (Event H)) :
    requests (es ++ es') = requests es ++ requests es' := List.filterMap_append

@[simp] theorem requests_serve (handler : Handler H) (request : Request H) :
    requests (handler.serve request) = [request] := by
  unfold Handler.serve
  cases handler.onRequest request with
  | none => rfl
  | some e => cases e <;> rfl

@[simp] theorem requests_sendError (version : Version) (e : Exn) :
    requests [(Handler.sendError version e : Event H)] = [] := by
  cases e <;> rfl

/-! ## One call -/

section OnInput

variable (handler : Handler H) {p p' : ParserBase H RequestLine} {input : Bytes}

theorem onInput_refused (h : p.feed input = none) :
    ∃ event, handler.onInput p input = ([event], RequestParser.reset (RequestParser.reset p)) ∧
      requests [event] = [] := by
  rw [Handler.onInput, h]
  exact ⟨_, rfl, requests_sendError _ _⟩

theorem serve_cons (request : Request H) :
    ∃ event events, handler.serve request = event :: events := by
  unfold Handler.serve
  cases handler.onRequest request with
  | none => exact ⟨_, _, rfl⟩
  | some e => exact ⟨_, _, rfl⟩

/-- Behind a segment that has been fed the parser waits, or it is reset and has handed a
request on or sent an error. -/
theorem onInput_fed (h : p.feed input = some p') :
    (((p'.outcome handler.registry RequestLineStep.apply).result = .Again ∨
        (p'.outcome handler.registry RequestLineStep.apply).result = .Next) ∧
      handler.onInput p input = ([], (RequestParser.parse handler.registry p').2)) ∨
    ((p'.outcome handler.registry RequestLineStep.apply).result ≠ .Again ∧
      ∃ event events, handler.onInput p input =
        (event :: events, RequestParser.reset (RequestParser.parse handler.registry p').2)) := by
  rw [Handler.onInput, h]
  have hresult : (RequestParser.parse handler.registry p').1 =
      (p'.outcome handler.registry RequestLineStep.apply).result := rfl
  rw [← hresult]
  dsimp only
  generalize RequestParser.parse handler.registry p' = o
  obtain ⟨result, q⟩ := o
  cases result with
  | Again => exact .inl ⟨.inl rfl, rfl⟩
  | Next => exact .inl ⟨.inr rfl, rfl⟩
  | Done =>
    obtain ⟨event, events, hserve⟩ := serve_cons handler q.message
    exact .inr ⟨by simp, event, events, by simp only [hserve]⟩
  | thrown e => exact .inr ⟨by simp, _, _, rfl⟩

/-- The buffer behind a call. -/
theorem parse_bytes (p : ParserBase H RequestLine) :
    (RequestParser.parse handler.registry p).2.buffer.bytes = p.buffer.bytes :=
  ArrayStreamBuf.advanceTo_bytes p.buffer
    (Work.forward handler.registry RequestLineStep.forward _ _)

end OnInput

end Pistache.Http
