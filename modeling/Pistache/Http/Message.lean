import Pistache.Http.Header

/-!
# Messages

`Message`, and the two classes derived from it: a `Request` has its method, resource and
query besides, a `Response` nothing.  The address, the timeout and the peer of a request are
left out: no step of the parser touches them.
-/

set_option autoImplicit false

namespace Pistache.Http

open Replay

variable {H L : Type}

/-- `Message`; a new one is of version 1.1 and has the code zero. -/
structure Message (H : Type) where
  version_ : Version := .Http11
  code_ : Code := ⟨0⟩
  body_ : Bytes := []
  cookies_ : CookieJar := []
  headers_ : Header.Collection H := .empty
  deriving DecidableEq

/-- A class derived from `Message`, with what it adds. -/
structure Derived (H L : Type) extends Message H where
  own : L
  deriving DecidableEq

/-- `Uri::Query`. -/
abbrev Query := List (Bytes × Bytes)

def Query.add (query : Query) (name value : Bytes) : Query := insertNew name value query

/-- What `Request` adds to `Message`. -/
structure RequestLine where
  method_ : Method := .Options
  resource_ : Bytes := []
  query_ : Query := []
  deriving DecidableEq

abbrev Request (H : Type) := Derived H RequestLine
abbrev Response (H : Type) := Derived H Unit

def Request.new : Request H := { own := {} }
def Response.new : Response H := { own := () }

/-- `message->body_.append`. -/
def Message.append (m : Message H) (data : Bytes) : Message H := { m with body_ := m.body_ ++ data }

@[simp] theorem Message.append_headers (m : Message H) (data : Bytes) :
    (m.append data).headers_ = m.headers_ := rfl

@[simp] theorem Message.append_body (m : Message H) (data : Bytes) :
    (m.append data).body_ = m.body_ ++ data := rfl

@[simp] theorem Message.append_nil (m : Message H) : m.append [] = m := by
  simp [Message.append]

@[simp] theorem Message.append_append (m : Message H) (a b : Bytes) :
    (m.append a).append b = m.append (a ++ b) := by
  simp [Message.append]

end Pistache.Http
