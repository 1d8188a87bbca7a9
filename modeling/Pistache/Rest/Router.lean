import Pistache.Http.Message
import Pistache.Lib.Hooks
import Pistache.Rest.RemoveRoute

/-!
# The router

`Router`: a segment tree for each method, middlewares, custom handlers and a handler for what is
not found.  The hooks are code of the user: each takes the request and what the hooks share, and
gives what it returns or throws, with the number of responses that it sends, at once or later,
through the writers it was given.

`route` asks the middlewares, looks the path up, asks the custom handlers and answers by
itself in the end.  Its trace tells which hooks have run and what was answered.
-/

set_option autoImplicit false

namespace Pistache.Rest

open Http Hooks

/-! ## Hooks -/

/-- `Route::Result`. -/
inductive Result where
  | Ok
  | Failure
  deriving DecidableEq, Repr

/-- `Route::Status`. -/
inductive Status where
  | Match
  | NotFound
  | NotAllowed
  deriving DecidableEq, Repr

/-- What a hook does: the responses it sends, and what it returns or throws. -/
structure Reply (α : Type) where
  sent : Nat
  result : Except Exn α

/-- `Rest::Request`: a request with the bindings of its route. -/
structure RestRequest (H : Type) where
  request : Request H
  params : List TypedParam
  splats : List TypedParam

variable {H σ : Type}

/-- `Route::Middleware`: it may change the request. -/
abbrev Middleware (H σ : Type) := Hook (Request H × σ) (Reply Bool)

/-- `Route::Handler`. -/
abbrev Handler (H σ : Type) := RestRequest H → Hook σ (Reply Result)

/-- The next middleware is asked. -/
def Reply.goesOn (reply : Reply Bool) : Bool :=
  match reply.result with
  | .ok true => true
  | _ => false

/-- The next custom handler is asked. -/
def Reply.declines (reply : Reply Result) : Bool :=
  match reply.result with
  | .ok .Failure => true
  | _ => false

/-! ## The router -/

/-- `routes`, an `unordered_map` in the order of its iteration. -/
abbrev Routes (H σ : Type) := List (Sigma fun _ : Method => SegmentTreeNode (Handler H σ))

structure Router (H σ : Type) where
  routes : Routes H σ
  customHandlers : List (Handler H σ)
  middlewares : List (Middleware H σ)
  notFoundHandler : Option (Handler H σ)

/-- What `route` has done: hooks that have run, and answers of the router itself. -/
inductive Event (H σ : Type) where
  | middleware (reply : Reply Bool)
  | route (handler : Handler H σ) (params splats : List TypedParam) (reply : Reply Result)
  | custom (reply : Reply Result)
  | sendMethodNotAllowed (supportedMethods : List Method)
  | notFoundHandler (reply : Reply Result)
  | sendNotFound (text : Bytes)

/-- `SegmentTreeNode::sanitizeResource`: the first loop. -/
def collapseSlashes (path : Bytes) : Bytes :=
  path.foldl (fun dup c =>
    if c ≠ slash ∨ dup = [] ∨ dup.getLast? ≠ some slash then dup ++ [c] else dup) []

/-- `SegmentTreeNode::sanitizeResource`, of a path that is not empty. -/
def sanitizeResource (path : Bytes) : Bytes :=
  let dup := collapseSlashes path
  if dup.getLast? = some slash then (dup.drop 1).take (dup.length - 2) else dup.drop 1

namespace Router

/-- The route of a method for a sanitized path. -/
def findRoute (routes : Routes H σ) (method : Method) (path : Bytes) :
    Option (SegmentTreeNode.Found (Handler H σ)) :=
  (routes.dlookup method).bind fun tree => tree.findRoute path

/-- The other methods whose trees have a route for the path. -/
def supportedMethods (routes : Routes H σ) (method : Method) (path : Bytes) : List Method :=
  routes.filterMap fun methods =>
    if methods.1 = method then none
    else if (methods.2.findRoute path).isSome then some methods.1 else none

/-- The end of `Router::route`, where no hook has taken the request. -/
def fallback (router : Router H σ) (req : Request H) (path : Bytes) (shared : σ) :
    Event H σ × Except Exn Status :=
  let supported := supportedMethods router.routes req.own.method_ path
  if supported ≠ [] then (.sendMethodNotAllowed supported, .ok .NotAllowed)
  else
    match router.notFoundHandler with
    | some handler =>
      let (_, reply) := handler ⟨req, [], []⟩ shared
      (.notFoundHandler reply, reply.result.map fun _ => .NotFound)
    | none => (.sendNotFound (lit "Could not find a matching route"), .ok .NotFound)

/-- `Router::route`. -/
def route (router : Router H σ) (request : Request H) (shared : σ) :
    List (Event H σ) × Except Exn Status :=
  let resource := request.own.resource_
  if resource = [] then ([], .error (.std "Invalid zero-length URL."))
  else
    let (replies, (req, shared), last) :=
      ask Reply.goesOn router.middlewares (request, shared)
    let events := replies.map Event.middleware
    match last with
    | some reply => (events, reply.result.map fun _ => .Match)
    | none =>
      let path := sanitizeResource resource
      match findRoute router.routes req.own.method_ path with
      | some found =>
        let (_, reply) := found.route ⟨req, found.params, found.splats⟩ shared
        (events ++ [.route found.route found.params found.splats reply],
          reply.result.map fun _ => .Match)
      | none =>
        let (replies, shared, last) :=
          ask Reply.declines (router.customHandlers.map fun handler => handler ⟨req, [], []⟩) shared
        let events := events ++ replies.map Event.custom
        match last with
        | some reply => (events, reply.result.map fun _ => .Match)
        | none =>
          let (event, outcome) := router.fallback req path shared
          (events ++ [event], outcome)

end Router

/-! ## Building the routes -/

/-- Where a map of methods iterates over a new method. -/
structure MethodOrder (H σ : Type) where
  insert : Method → Routes H σ → Routes H σ
  perm : ∀ method routes, (insert method routes).Perm (⟨method, .empty⟩ :: routes)

namespace Router

/-- `routes[method]`: the tree is there from here on. -/
def opened (order : MethodOrder H σ) (method : Method) (routes : Routes H σ) : Routes H σ :=
  if routes.dlookup method = none then order.insert method routes else routes

/-- `Router::addRoute`, with the orders in which the maps iterate that it inserts into. -/
def addRoute (order : MethodOrder H σ) (treeOrder : IterationOrder (Handler H σ))
    (method : Method) (resource : Bytes) (handler : Handler H σ) (routes : Routes H σ) :
    Routes H σ × Except String Unit :=
  if resource = [] then (routes, .error "Invalid zero-length URL.")
  else
    let routes := opened order method routes
    let tree := (routes.dlookup method).getD .empty
    let (tree, outcome) := tree.addRoute treeOrder (sanitizeResource resource) handler
    (routes.kreplace method tree, outcome)

/-- `Router::removeRoute`. -/
def removeRoute (order : MethodOrder H σ) (method : Method) (resource : Bytes)
    (routes : Routes H σ) : Routes H σ × Except String Unit :=
  if resource = [] then (routes, .error "Invalid zero-length URL.")
  else
    let routes := opened order method routes
    let tree := (routes.dlookup method).getD .empty
    match tree.removeRoute (sanitizeResource resource) with
    | .ok (tree, _) => (routes.kreplace method tree, .ok ())
    | .error e => (routes, .error e)

end Router

end Pistache.Rest
