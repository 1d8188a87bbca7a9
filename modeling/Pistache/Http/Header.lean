import Pistache.Http.Cookie

/-!
# Header classes and collections

The classes that the parser and `Handler::onInput` look at are written out: `ContentLength`,
`TransferEncoding` and `Connection`.  The other classes of the registry (applications add
their own) are a parameter, `Registry.others`: a class is the function from the text of a
value to the header that `parseRaw` makes of it.  A table whose keys are compared without
case is a list with lowered keys.
-/

set_option autoImplicit false

namespace Pistache.Http

open Replay

namespace Header

inductive Encoding where
  | Gzip | Br | Compress | Deflate | Zstd | Identity | Chunked | Unknown
  deriving DecidableEq, Repr

/-- The comparisons of `encodingFromString`; each uses the length of the text only, so that
a first part of a name stands for the name. -/
def encodingNames : List (Bytes × Encoding) :=
  [(lit "zstd", .Zstd), (lit "gzip", .Gzip), (lit "br", .Br), (lit "deflate", .Deflate),
    (lit "compress", .Compress), (lit "identity", .Identity), (lit "chunked", .Chunked)]

def encodingFromString (str : Bytes) : Encoding :=
  if str = [] then .Unknown
  else ((encodingNames.find? fun e => strncasecmpEq str e.1).map Prod.snd).getD .Unknown

/-- `ContentLength::parse`: what is no number leaves the length at zero. -/
def ContentLength.parse (data : Bytes) : Except Exn UInt64 :=
  match stoull data with
  | .ok val => .ok val
  | .error .invalidArgument => .ok 0
  | .error .outOfRange => .error (.std "stoull")

/-- `Connection::parseRaw`. -/
def Connection.parseRaw (str : Bytes) : ConnectionControl :=
  if (match_string (lit "close") str).isSome then .Close
  else if (match_string (lit "keep-alive") str).isSome then .KeepAlive
  else .Ext

end Header

variable {H : Type}

/-- A header of one of the registered classes. -/
inductive TypedHeader (H : Type) where
  | ContentLength (value : UInt64)
  | TransferEncoding (encoding : Header.Encoding)
  | Connection (control : ConnectionControl)
  | other (header : H)
  deriving DecidableEq

/-- What the parser takes from outside: the other header classes by lowered name, and the
reader of dates. -/
structure Registry (H : Type) where
  others : Bytes → Option (Bytes → Except Exn H)
  fullDate : Bytes → Except Exn FullDate

/-- The registry without other classes; no text is a date. -/
def Registry.basic : Registry Unit where
  others _ := none
  fullDate _ := .error (.std "Invalid Date format")

/-- `Registry::isRegistered`, `Registry::makeHeader` and `parseRaw` of the header made;
`none` for a name that is not registered. -/
def Registry.parse (registry : Registry H) (name value : Bytes) :
    Option (Except Exn (TypedHeader H)) :=
  let name := name.map tolower
  if name = lit "content-length" then
    some ((Header.ContentLength.parse value).map .ContentLength)
  else if name = lit "transfer-encoding" then
    some (.ok (.TransferEncoding (Header.encodingFromString value)))
  else if name = lit "connection" then
    some (.ok (.Connection (Header.Connection.parseRaw value)))
  else (registry.others name).map fun parseRaw => (parseRaw value).map .other

/-- `Header::Raw`. -/
structure Raw where
  name : Bytes
  value : Bytes
  deriving DecidableEq

namespace Header

/-- `Header::Collection`. -/
structure Collection (H : Type) where
  headers : List (Bytes × TypedHeader H)
  rawHeaders : List (Bytes × Raw)
  deriving DecidableEq

namespace Collection

def empty : Collection H := ⟨[], []⟩

def add (coll : Collection H) (name : Bytes) (header : TypedHeader H) : Collection H :=
  { coll with headers := insertNew (name.map tolower) header coll.headers }

def addRaw (coll : Collection H) (raw : Raw) : Collection H :=
  { coll with rawHeaders := insertNew (raw.name.map tolower) raw coll.rawHeaders }

/-- `tryGet<ContentLength>`. -/
def contentLength (coll : Collection H) : Option UInt64 :=
  match coll.headers.lookup (lit "content-length") with
  | some (.ContentLength value) => some value
  | _ => none

/-- `tryGet<TransferEncoding>`. -/
def transferEncoding (coll : Collection H) : Option Encoding :=
  match coll.headers.lookup (lit "transfer-encoding") with
  | some (.TransferEncoding encoding) => some encoding
  | _ => none

/-- `tryGet<Connection>`. -/
def connection (coll : Collection H) : Option ConnectionControl :=
  match coll.headers.lookup (lit "connection") with
  | some (.Connection control) => some control
  | _ => none

end Collection

end Header

end Pistache.Http
