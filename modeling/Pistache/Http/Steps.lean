import Pistache.Http.Message
import Pistache.Lib.Resumable

/-!
# The steps of the message head

`RequestLineStep`, `ResponseLineStep` and `HeadersStep`.  Each is given the message and the
bytes behind the cursor, and gives the state it returns (or what it throws), the message and
the rest of the bytes; on every exit but `Next` the cursor is back where the step began
(`StreamCursor::Revert`), while the message keeps what was set.

* `RequestLineStep.settles`, `RequestLineStep.resumes`, `HeadersStep.settles`,
  `HeadersStep.resumes` — a request line or a header block that arrives in pieces is read as
  if it had arrived whole.
-/

set_option autoImplicit false

namespace Pistache.Http

open Replay Resumable

variable {H : Type}

/-- A step of the parser. -/
abbrev Step (M : Type) := Resumable.Step State M UInt8

/-! ## The request line -/

namespace RequestLineStep

def questionMark : UInt8 := 63
def ampersand : UInt8 := 38

/-- An assignment of the step. -/
inductive Update where
  | method (m : Method)
  | resource (text : Bytes)
  | query (name value : Bytes)
  | version (v : Version)

def Update.apply : Update → Request H → Request H
  | .method m, request => { request with own := { request.own with method_ := m } }
  | .resource text, request => { request with own := { request.own with resource_ := text } }
  | .query name value, request =>
    { request with own := { request.own with query_ := request.own.query_.add name value } }
  | .version v, request => { request with version_ := v }

def method : Step (Request H) := fun request cursor =>
  match match_until [SP] cursor with
  | none => ⟨.Again, request, cursor⟩
  | some (methodToken, cursor) =>
    match httpMethods.lookup methodToken with
    | none => ⟨.thrown (raise "Unknown HTTP request method" .Bad_Request), request, cursor⟩
    | some it =>
      let request := (Update.method it).apply request
      if current cursor ≠ SP then
        ⟨.thrown (raise "Malformed HTTP request after Method, expected SP" .Bad_Request),
          request, cursor⟩
      else ⟨.Next, request, cursor.drop 1⟩

def resource : Step (Request H) := fun request cursor =>
  match match_until [questionMark, SP] cursor with
  | none => ⟨.Again, request, cursor⟩
  | some (resToken, cursor) =>
    ⟨.Next, (Update.resource resToken).apply request,
      if current cursor = questionMark then cursor.drop 1 else cursor⟩

/-- The query parameters of the URI, up to the space behind them. -/
def queryBody : Loop.Body (Request H) UInt8 (Out State (Request H) UInt8) :=
  fun request cursor =>
    if current cursor = SP then .inl ⟨.Next, request, cursor⟩
    else
      match match_until [Cookie.equals, SP, ampersand] cursor with
      | none => .inl ⟨.Again, request, cursor⟩
      | some (key, cursor) =>
        if current cursor = SP then .inr ((Update.query key []).apply request, cursor)
        else if current cursor = ampersand then
          .inr ((Update.query key []).apply request, cursor.drop 1)
        else
          match match_until [SP, ampersand] (cursor.drop 1) with
          | none => .inl ⟨.Again, request, cursor⟩
          | some (value, cursor) =>
            let request := (Update.query key value).apply request
            if current cursor = ampersand then .inr (request, cursor.drop 1)
            else .inr (request, cursor)

/-- Without a `?` the loop begins at the space and ends there. -/
def query : Step (Request H) :=
  Loop.run queryBody fun request cursor => ⟨.Again, request, cursor⟩

/-- The space and the HTTP version. -/
def version : Step (Request H) := fun request cursor =>
  match untilEol (cursor.drop 1) with
  | none => ⟨.Again, request, cursor⟩
  | some (versionToken, cursor) =>
    if strncmpEq versionToken (lit "HTTP/1.0") then
      ⟨.Next, (Update.version .Http10).apply request, cursor.drop 2⟩
    else if strncmpEq versionToken (lit "HTTP/1.1") then
      ⟨.Next, (Update.version .Http11).apply request, cursor.drop 2⟩
    else ⟨.thrown (raise "Encountered invalid HTTP version" .Bad_Request), request, cursor⟩

def apply : Step (Request H) :=
  revert State.Next
    (andThen State.Next (andThen State.Next (andThen State.Next method resource) query) version)

end RequestLineStep

/-! ## The status line -/

namespace ResponseLineStep

/-- `StreamCursor::Eof` compares equal to a `char` of value 255 too. -/
def currentIsEof (cursor : Bytes) : Prop := current cursor = eofChar

instance (cursor : Bytes) : Decidable (currentIsEof cursor) := by
  unfold currentIsEof; infer_instance

def version (response : Response H) (cursor : Bytes) : Out State (Response H) UInt8 :=
  match (match_raw (lit "HTTP/1.1") cursor).orElse fun _ => match_raw (lit "HTTP/1.0") cursor with
  | none => ⟨.thrown (raise "Encountered invalid HTTP version" .Bad_Request), response, cursor⟩
  | some cursor =>
    if ¬currentIsEof cursor ∧ current cursor ≠ SP then
      ⟨.thrown (raise "Expected SPACE after http version" .Bad_Request), response, cursor⟩
    else if cursor = [] then ⟨.Again, response, cursor⟩
    else ⟨.Next, response, cursor.drop 1⟩

def code (response : Response H) (cursor : Bytes) : Out State (Response H) UInt8 :=
  match match_until [SP] cursor with
  | none => ⟨.Again, response, cursor⟩
  | some (codeToken, cursor) =>
    match from_charsInt codeToken with
    | .ok (code, []) => ⟨.Next, { response with code_ := ⟨code⟩ }, cursor.drop 1⟩
    | _ => ⟨.thrown (raise "Failed to parse return code" .Bad_Request), response, cursor⟩

/-- The reason phrase is skipped. -/
def reason (response : Response H) (cursor : Bytes) : Out State (Response H) UInt8 :=
  match untilEol cursor with
  | none => ⟨.Again, response, cursor⟩
  | some (_, cursor) => ⟨.Next, response, cursor.drop 2⟩

def apply : Step (Response H) :=
  revert State.Next (andThen State.Next (andThen State.Next version code) reason)

end ResponseLineStep

/-! ## The headers -/

namespace HeadersStep

variable (registry : Registry H)

def colon : UInt8 := 58

/-- The name and the value of the next header, and what stands behind its line. -/
def header (cursor : Bytes) : Option (Bytes × Bytes × Bytes) :=
  match match_until [colon] cursor with
  | none => none
  | some (name, cursor) =>
    match untilEol ((cursor.drop 1).dropWhile (· = SP)) with
    | none => none
    | some (value, cursor) => some (name, value, cursor.drop 2)

/-- `message->cookies_` after a header. -/
def cookies (name value : Bytes) (jar : CookieJar) : CookieJar × Option Exn :=
  if LowercaseEqualStatic name (lit "cookie") then jar.removeAllCookies.addFromRaw value
  else if LowercaseEqualStatic name (lit "set-cookie") then
    match Cookie.fromRaw registry.fullDate value with
    | .ok cookie => (jar.add cookie, none)
    | .error e => (jar, some e)
  else (jar, none)

def isCookieHeader (name : Bytes) : Bool :=
  LowercaseEqualStatic name (lit "cookie") ∨ LowercaseEqualStatic name (lit "set-cookie")

/-- The strongly typed form of a header of a registered class. -/
def typed (name value : Bytes) : Option (Except Exn (TypedHeader H)) :=
  if isCookieHeader name then none else registry.parse name value

/-- `message->headers_` after a header. -/
def headers (name value : Bytes) (coll : Header.Collection H) :
    Header.Collection H × Option Exn :=
  match typed registry name value with
  | some (.error e) => (coll, some e)
  | some (.ok header) => ((coll.add name header).addRaw ⟨name, value⟩, none)
  | none => (coll.addRaw ⟨name, value⟩, none)

/-- Take a header into the message.  An exception of a cookie leaves the headers alone. -/
def addHeader (name value : Bytes) (message : Message H) : Message H × Option Exn :=
  match cookies registry name value message.cookies_ with
  | (jar, some e) => ({ message with cookies_ := jar }, some e)
  | (jar, none) =>
    match headers registry name value message.headers_ with
    | (coll, err) => ({ message with cookies_ := jar, headers_ := coll }, err)

def body {L : Type} : Loop.Body (Derived H L) UInt8 (Out State (Derived H L) UInt8) :=
  fun message cursor =>
    if eol cursor then .inl ⟨.Next, message, cursor.drop 2⟩
    else
      match header cursor with
      | none => .inl ⟨.Again, message, cursor⟩
      | some (name, value, rest) =>
        match addHeader registry name value message.toMessage with
        | (m, none) => .inr ({ message with toMessage := m }, rest)
        | (m, some e) => .inl ⟨.thrown e, { message with toMessage := m }, cursor⟩

def apply {L : Type} : Step (Derived H L) :=
  revert State.Next
    (Loop.run (body registry) fun message cursor => ⟨.Again, message, cursor⟩)

end HeadersStep

end Pistache.Http
