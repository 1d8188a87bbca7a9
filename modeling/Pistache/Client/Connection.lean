import Pistache.Http.Parser

/-!
# The connection of a client

`Connection` with its parser and the pending request, and the handlers that the transport
calls: for a packet that has been received, for an error and for a timeout.  A promise is the
number of its request.

The timers, the `onDone` callbacks and the state in the pool are left out: they are released,
called and set beside what is modelled here, and none of it reads them.
-/

set_option autoImplicit false

namespace Pistache.Client

open Http

variable {H : Type}

/-- What becomes of the promise of a request. -/
inductive Event (H : Type) where
  | resolve (request : Nat) (response : Response H)
  | reject (request : Nat) (error : String)
  deriving DecidableEq

structure Connection (H : Type) where
  parser : ParserBase H Unit
  requestEntry : Option Nat := none

namespace Connection

def new (maxResponseSize : Nat) : Connection H := { parser := ResponseParser.new maxResponseSize }

def handleError (c : Connection H) (error : String) : List (Event H) × Connection H :=
  match c.requestEntry with
  | some request => ([.reject request error], { c with requestEntry := none })
  | none => ([], c)

def handleTimeout (c : Connection H) : List (Event H) × Connection H :=
  match c.requestEntry with
  | some request => ([.reject request "Timeout"], { c with requestEntry := none })
  | none => ([], c)

/-- What is left of a response that has been moved: its containers are empty. -/
def movedFrom (response : Response H) : Response H :=
  { response with body_ := [], cookies_ := [], headers_ := .empty }

def handleResponsePacket (registry : Registry H) (c : Connection H) (buffer : Bytes) :
    List (Event H) × Connection H :=
  match c.parser.feed buffer with
  | none => c.handleError "Client: Too long packet"
  | some parser =>
    match ResponseParser.parse registry parser with
    | (.Done, parser) =>
      match c.requestEntry with
      | some request =>
        ([.resolve request parser.message],
          { parser := ResponseParser.reset { parser with message := movedFrom parser.message }
            requestEntry := none })
      | none => ([], { c with parser })
    | (.thrown e, parser) => { c with parser }.handleError e.what
    | (_, parser) => ([], { c with parser })

/-- A new entry takes the place of the one before; the request is then written to the
socket. -/
def performImpl (c : Connection H) (request : Nat) : Connection H :=
  { c with requestEntry := some request }

end Connection

end Pistache.Client
