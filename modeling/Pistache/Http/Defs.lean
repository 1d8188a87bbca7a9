import Pistache.Common.Bytes

/-!
# Methods, versions, codes, errors
-/

set_option autoImplicit false

namespace Pistache.Http

/-- `HTTP_METHODS`. -/
inductive Method where
  | Options | Get | Post | Head | Put | Patch | Delete | Trace | Connect | Acl
  | BaselineControl | Bind | Checkin | Checkout | Copy | Label | Link | Lock | Merge
  | Mkactivity | Mkcalendar | Mkcol | Mkredirectref | Mkworkspace | Move | Orderpatch | Pri
  | Propfind | Proppatch | Rebind | Report | Search | Unbind | Uncheckout | Unlink | Unlock
  | Update | Updateredirectref | VersionControl
  deriving DecidableEq, Repr

/-- The table from which the request line takes its method. -/
def httpMethods : List (Bytes × Method) :=
  [(lit "OPTIONS", .Options), (lit "GET", .Get), (lit "POST", .Post), (lit "HEAD", .Head),
    (lit "PUT", .Put), (lit "PATCH", .Patch), (lit "DELETE", .Delete), (lit "TRACE", .Trace),
    (lit "CONNECT", .Connect), (lit "ACL", .Acl),
    (lit "BASELINE-CONTROL", .BaselineControl), (lit "BIND", .Bind),
    (lit "CHECKIN", .Checkin), (lit "CHECKOUT", .Checkout), (lit "COPY", .Copy),
    (lit "LABEL", .Label), (lit "LINK", .Link), (lit "LOCK", .Lock), (lit "MERGE", .Merge),
    (lit "MKACTIVITY", .Mkactivity), (lit "MKCALENDAR", .Mkcalendar), (lit "MKCOL", .Mkcol),
    (lit "MKREDIRECTREF", .Mkredirectref), (lit "MKWORKSPACE", .Mkworkspace),
    (lit "MOVE", .Move), (lit "ORDERPATCH", .Orderpatch), (lit "PRI", .Pri),
    (lit "PROPFIND", .Propfind), (lit "PROPPATCH", .Proppatch), (lit "REBIND", .Rebind),
    (lit "REPORT", .Report), (lit "SEARCH", .Search), (lit "UNBIND", .Unbind),
    (lit "UNCHECKOUT", .Uncheckout), (lit "UNLINK", .Unlink), (lit "UNLOCK", .Unlock),
    (lit "UPDATE", .Update), (lit "UPDATEREDIRECTREF", .Updateredirectref),
    (lit "VERSION-CONTROL", .VersionControl)]

inductive Version where
  | Http10
  | Http11
  deriving DecidableEq, Repr

/-- `Code`: any `int` can be cast to it, so a code is its number. -/
structure Code where
  value : Int
  deriving DecidableEq, Repr

def Code.Bad_Request : Code := ⟨400⟩
def Code.Request_Entity_Too_Large : Code := ⟨413⟩
def Code.Internal_Server_Error : Code := ⟨500⟩
def Code.Not_Implemented : Code := ⟨501⟩

inductive ConnectionControl where
  | Close
  | KeepAlive
  | Ext
  deriving DecidableEq, Repr

/-- What the message code throws: an `HttpError`, or another `std::exception` with its text. -/
inductive Exn where
  | http (code : Code) (reason : String)
  | std (what : String)
  deriving DecidableEq, Repr

/-- `std::exception::what`. -/
def Exn.what : Exn → String
  | .http _ reason => reason
  | .std what => what

/-- What `Step::apply` returns, or what it throws (`Step::raise` and the standard library). -/
inductive State where
  | Again
  | Next
  | Done
  | thrown (e : Exn)
  deriving DecidableEq, Repr

/-- `Step::raise`. -/
def raise (msg : String) (code : Code) : Exn := .http code msg

end Pistache.Http
