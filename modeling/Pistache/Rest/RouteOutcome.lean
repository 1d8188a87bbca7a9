import Pistache.Rest.Router

/-!
# What the router decides

`Outcome` is what `route` is for, said of the patterns that are registered and not of the trees:
the middlewares up to the first that returns false, then the handler of a pattern of the method
that matches, then the custom handlers up to the first that returns Ok, then the methods that
would match, then the handler for what is not found.

Principal results: `sound_built` — whatever was called, the trees hold no route that is not
registered; `route_outcome` — exactly when `route` does what `Outcome` says.
-/

set_option autoImplicit false

namespace Pistache.Rest

open Http Hooks SegmentTreeNode

variable {H σ : Type}

/-! ## The patterns that are registered -/

/-- The patterns of each method, with their handlers. -/
abbrev RouteTable (H σ : Type) := Method → List (Pattern × Handler H σ)

/-- A call of `Router::addRoute` or `Router::removeRoute`. -/
inductive RouteCall (H σ : Type) where
  | add (order : MethodOrder H σ) (treeOrder : IterationOrder (Handler H σ)) (method : Method)
      (resource : Bytes) (handler : Handler H σ)
  | remove (order : MethodOrder H σ) (method : Method) (resource : Bytes)

def RouteCall.run : RouteCall H σ → Routes H σ → Routes H σ × Except String Unit
  | .add order treeOrder method resource handler, routes =>
    Router.addRoute order treeOrder method resource handler routes
  | .remove order method resource, routes => Router.removeRoute order method resource routes

/-- A call that returns registers its pattern, or drops it. -/
def RouteCall.register (T : RouteTable H σ) : RouteCall H σ → RouteTable H σ
  | .add _ _ method resource handler =>
    match patternOf (segments (sanitizeResource resource)) with
    | .ok K => Function.update T method (((T method).filter fun e => e.1 ≠ K) ++ [(K, handler)])
    | .error _ => T
  | .remove _ method resource =>
    match patternOf (segments (sanitizeResource resource)) with
    | .ok K => Function.update T method ((T method).filter fun e => e.1 ≠ K)
    | .error _ => T

/-- The routes and the table after any calls, of which some may have thrown. -/
inductive Built : Routes H σ → RouteTable H σ → Prop where
  | start : Built [] fun _ => []
  | call {routes T} (c : RouteCall H σ) : Built routes T →
      Built (c.run routes).1 (match (c.run routes).2 with
        | .ok () => c.register T
        | .error _ => T)

/-- A pattern of the method matches the path. -/
def Registered (T : RouteTable H σ) (method : Method) (path : Bytes) : Prop :=
  ∃ K handler, (K, handler) ∈ T method ∧ Matches K (segments path)

/-- The trees hold no route that is not registered. -/
structure Sound (routes : Routes H σ) (T : RouteTable H σ) : Prop where
  keys : routes.NodupKeys
  distinct : ∀ method tree, routes.dlookup method = some tree → tree.Distinct
  routes : ∀ method tree K handler, routes.dlookup method = some tree →
    routeAt K tree = some handler → (K, handler) ∈ T method

section Building

variable {routes : Routes H σ} {T : RouteTable H σ}

theorem dlookup_opened (order : MethodOrder H σ) (method : Method) (routes : Routes H σ) :
    ∃ tree, (Router.opened order method routes).dlookup method = some tree ∧
      (routes.dlookup method = some tree ∨ routes.dlookup method = none ∧ tree = .empty) := by
  unfold Router.opened
  cases h : routes.dlookup method with
  | none =>
    rw [if_pos rfl]
    exact ⟨.empty, Assoc.dlookup_insert_self (order.perm method routes) h, .inr ⟨rfl, rfl⟩⟩
  | some tree =>
    rw [if_neg (by simp)]
    exact ⟨tree, h, .inl rfl⟩

theorem Sound.opened (h : Sound routes T) (order : MethodOrder H σ) (method : Method) :
    Sound (Router.opened order method routes) T := by
  unfold Router.opened
  by_cases hnone : routes.dlookup method = none
  · rw [if_pos hnone]
    have hself := Assoc.dlookup_insert_self (order.perm method routes) hnone
    have hother : ∀ {method'}, method' ≠ method →
        (order.insert method routes).dlookup method' = routes.dlookup method' :=
      fun hne => Assoc.dlookup_insert_ne (order.perm method routes) hnone h.keys hne
    refine ⟨Assoc.nodupKeys_insert (order.perm method routes) hnone h.keys, ?_, ?_⟩
    · intro method' tree htree
      by_cases hm : method' = method
      · rw [hm, hself] at htree
        obtain rfl := Option.some.inj htree
        exact distinct_empty
      · exact h.distinct method' tree (hother hm ▸ htree)
    · intro method' tree K handler htree hroute
      by_cases hm : method' = method
      · rw [hm, hself] at htree
        obtain rfl := Option.some.inj htree
        cases K with
        | nil => cases hroute
        | cons k K =>
          rw [routeAt_cons, child_empty] at hroute
          cases hroute
      · exact h.routes method' tree K handler (hother hm ▸ htree) hroute
  · rw [if_neg hnone]
    exact h

/-- The tree of a method is replaced, and its table with it. -/
theorem Sound.kreplace (h : Sound routes T) {method : Method}
    {tree tree' : SegmentTreeNode (Handler H σ)} (htree : routes.dlookup method = some tree)
    (hd : tree'.Distinct) {L : List (Pattern × Handler H σ)}
    (hroutes : ∀ K handler, routeAt K tree' = some handler → (K, handler) ∈ L) :
    Sound (routes.kreplace method tree') (Function.update T method L) := by
  have hself := Assoc.dlookup_kreplace_self htree tree'
  refine ⟨(List.kreplace_nodupKeys method tree').mpr h.keys, ?_, ?_⟩
  · intro method' t ht
    by_cases hm : method' = method
    · rw [hm, hself] at ht
      obtain rfl := Option.some.inj ht
      exact hd
    · exact h.distinct method' t (Assoc.dlookup_kreplace_ne hm htree tree' ▸ ht)
  · intro method' t K handler ht hroute
    by_cases hm : method' = method
    · rw [hm, hself] at ht
      obtain rfl := Option.some.inj ht
      rw [hm, Function.update_self]
      exact hroutes K handler hroute
    · rw [Function.update_of_ne hm]
      exact h.routes method' t K handler (Assoc.dlookup_kreplace_ne hm htree tree' ▸ ht) hroute

theorem Sound.add (h : Sound routes T) (order : MethodOrder H σ)
    (treeOrder : IterationOrder (Handler H σ)) (method : Method) (resource : Bytes)
    (handler : Handler H σ) :
    Sound (Router.addRoute order treeOrder method resource handler routes).1
      (match (Router.addRoute order treeOrder method resource handler routes).2 with
        | .ok () => (RouteCall.add order treeOrder method resource handler).register T
        | .error _ => T) := by
  unfold Router.addRoute
  by_cases hempty : resource = []
  · rw [if_pos hempty]
    exact h
  · rw [if_neg hempty]
    have ho := h.opened order method
    obtain ⟨tree, htree, -⟩ := dlookup_opened order method routes
    simp only [htree, Option.getD_some]
    have hd := ho.distinct method tree htree
    have hrefused : ∀ tree', tree'.Distinct →
        (∀ K r, routeAt K tree' = some r → routeAt K tree = some r) →
        Sound ((Router.opened order method routes).kreplace method tree') T := by
      intro tree' hd' hroutes
      have := ho.kreplace htree hd' (L := T method) fun K r hr =>
        ho.routes method tree K r htree (hroutes K r hr)
      rwa [Function.update_eq_self] at this
    rcases addRoute_cases treeOrder tree hd (sanitizeResource resource) handler with
      ⟨K, hK, -, heq⟩ | ⟨K, r, hK, hr, heq⟩ | ⟨e, he, heq⟩
    · rw [heq]
      simp only [RouteCall.register, hK]
      refine ho.kreplace htree (distinct_put treeOrder _ K hd) fun K' r' hr' => ?_
      rw [routeAt_put treeOrder _ _ _ hd] at hr'
      rw [List.mem_append, List.mem_filter, List.mem_singleton]
      by_cases hKK : K' = K
      · rw [if_pos hKK, Option.some_or] at hr'
        exact .inr (Prod.ext hKK (Option.some.inj hr').symm)
      · rw [if_neg hKK] at hr'
        exact .inl ⟨ho.routes method tree K' r' htree hr', by simpa using hKK⟩
    · rw [heq]
      exact hrefused tree hd fun _ _ hr' => hr'
    · rw [heq]
      refine hrefused _ (distinct_put treeOrder none _ hd) fun K r hr => ?_
      rw [routeAt_put treeOrder _ _ _ hd] at hr
      split at hr <;> exact hr

theorem Sound.remove (h : Sound routes T) (order : MethodOrder H σ) (method : Method)
    (resource : Bytes) :
    Sound (Router.removeRoute order method resource routes).1
      (match (Router.removeRoute order method resource routes).2 with
        | .ok () => (RouteCall.remove order method resource).register T
        | .error _ => T) := by
  unfold Router.removeRoute
  by_cases hempty : resource = []
  · rw [if_pos hempty]
    exact h
  · rw [if_neg hempty]
    have ho := h.opened order method
    obtain ⟨tree, htree, -⟩ := dlookup_opened order method routes
    simp only [htree, Option.getD_some]
    have hd := ho.distinct method tree htree
    cases hK : patternOf (segments (sanitizeResource resource)) with
    | error e =>
      obtain ⟨e', he'⟩ := removeSegments_bad _ tree hK
      rw [SegmentTreeNode.removeRoute, he']
      exact ho
    | ok K =>
      rw [SegmentTreeNode.removeRoute, removeSegments_eq _ hK]
      cases hx : prune K tree with
      | none => exact ho
      | some x =>
        obtain ⟨tree', b⟩ := x
        obtain ⟨hd', hroutes⟩ := prune_sound K hd hx
        simp only [RouteCall.register, hK]
        refine ho.kreplace htree hd' fun K' r hr => ?_
        obtain ⟨hr', hne⟩ := hroutes K' r hr
        exact List.mem_filter.mpr ⟨ho.routes method tree K' r htree hr', by simpa using hne⟩

/-- **The trees hold no route that is not registered**, whatever was called. -/
theorem sound_built (h : Built routes T) : Sound routes T := by
  induction h with
  | start => exact ⟨List.nodupKeys_nil, nofun, nofun⟩
  | call c _ ih =>
    cases c with
    | add order treeOrder method resource handler =>
      exact ih.add order treeOrder method resource handler
    | remove order method resource => exact ih.remove order method resource

end Building

/-! ## What the router is for -/

section Outcome

variable (router : Router H σ) (T : RouteTable H σ) (request : Request H) (shared : σ)

/-- The path of a request. -/
def pathOf (request : Request H) : Bytes := sanitizeResource request.own.resource_

/-- All middlewares have let the request pass, which is now `req`. -/
def Passed (replies : List (Reply Bool)) (req : Request H) (s : σ) : Prop :=
  Asked Reply.goesOn router.middlewares (request, shared) replies (req, s) none

/-- The custom handlers asked about a request. -/
abbrev AskedCustom (req : Request H) (s : σ) (replies : List (Reply Result)) (s' : σ)
    (last : Option (Reply Result)) : Prop :=
  Asked Reply.declines (router.customHandlers.map fun handler => handler ⟨req, [], []⟩) s replies
    s' last

/-- The hooks that may run, in their order, the answers, and the status; a hook that throws ends
it with what it throws. -/
inductive Outcome : List (Event H σ) → Except Exn Status → Prop where
  | middleware {replies s reply} :
      Asked Reply.goesOn router.middlewares (request, shared) replies s (some reply) →
      Outcome (replies.map .middleware) (reply.result.map fun _ => .Match)
  | route {replies req s K handler reply} : Passed router request shared replies req s →
      (K, handler) ∈ T req.own.method_ → Matches K (segments (pathOf request)) →
      reply = (handler ⟨req, params K (segments (pathOf request)),
        splats K (segments (pathOf request))⟩ s).2 →
      Outcome (replies.map .middleware ++ [.route handler (params K (segments (pathOf request)))
        (splats K (segments (pathOf request))) reply]) (reply.result.map fun _ => .Match)
  | custom {replies req s customReplies s' reply} : Passed router request shared replies req s →
      ¬Registered T req.own.method_ (pathOf request) →
      AskedCustom router req s customReplies s' (some reply) →
      Outcome (replies.map .middleware ++ customReplies.map .custom)
        (reply.result.map fun _ => .Match)
  | notAllowed {replies req s customReplies s' methods} :
      Passed router request shared replies req s →
      ¬Registered T req.own.method_ (pathOf request) →
      AskedCustom router req s customReplies s' none → methods.Nodup → methods ≠ [] →
      (∀ m, m ∈ methods ↔ m ≠ req.own.method_ ∧ Registered T m (pathOf request)) →
      Outcome (replies.map .middleware ++ customReplies.map .custom ++
        [.sendMethodNotAllowed methods]) (.ok .NotAllowed)
  | notFoundHandler {replies req s customReplies s' handler reply} :
      Passed router request shared replies req s →
      (∀ m, ¬Registered T m (pathOf request)) →
      AskedCustom router req s customReplies s' none → router.notFoundHandler = some handler →
      reply = (handler ⟨req, [], []⟩ s').2 →
      Outcome (replies.map .middleware ++ customReplies.map .custom ++ [.notFoundHandler reply])
        (reply.result.map fun _ => .NotFound)
  | notFound {replies req s customReplies s'} : Passed router request shared replies req s →
      (∀ m, ¬Registered T m (pathOf request)) →
      AskedCustom router req s customReplies s' none → router.notFoundHandler = none →
      Outcome (replies.map .middleware ++ customReplies.map .custom ++
        [.sendNotFound (lit "Could not find a matching route")]) (.ok .NotFound)

/-- The path ends, at the end of the segments of a registered pattern that match it, at a node
of the method's tree from which the optionals that are first in their maps lead to the route
of that pattern and no further. -/
def Ends (routes : Routes H σ) (method : Method) (path : Bytes) : Prop :=
  ∃ tree A B n m handler, routes.dlookup method = some tree ∧ (A ++ B, handler) ∈ T method ∧
    List.Forall₂ Segment.Takes A (segments path) ∧ nodeAt A tree = some n ∧
    FirstOptionals n B m ∧ m.optional = [] ∧ m.route = some handler

/-- If a pattern of the method matches, one is found. -/
def Shown (method : Method) (path : Bytes) : Prop :=
  Registered T method path → Ends T router.routes method path

/-- When the middlewares let the request pass, a matching pattern of its method shows; and when
there is none and no custom handler takes it, those of the other methods show. -/
def LookupsRight : Prop :=
  ∀ replies req s, Passed router request shared replies req s →
    Shown router T req.own.method_ (pathOf request) ∧
    (¬Registered T req.own.method_ (pathOf request) →
      ∀ customReplies s', AskedCustom router req s customReplies s' none →
        ∀ m, m ≠ req.own.method_ → Shown router T m (pathOf request))

end Outcome

/-! ## What the trees say -/

section Lookups

variable {routes : Routes H σ} {T : RouteTable H σ}

/-- What is found is a registered pattern that matches, with its bindings. -/
theorem Sound.found (h : Sound routes T) {method : Method} {path : Bytes}
    {found : Found (Handler H σ)} (hfound : Router.findRoute routes method path = some found) :
    ∃ K, (K, found.route) ∈ T method ∧ Matches K (segments path) ∧
      found.params = params K (segments path) ∧ found.splats = splats K (segments path) := by
  obtain ⟨tree, htree, hfind⟩ := Option.bind_eq_some_iff.mp hfound
  rw [findRoute_eq] at hfind
  obtain ⟨⟨K, handler⟩, he, rfl⟩ := Option.map_eq_some_iff.mp hfind
  obtain ⟨hr, hmatch⟩ := find_sound (h.distinct method tree htree) he
  exact ⟨K, h.routes method tree K handler htree hr, hmatch, rfl, rfl⟩

theorem Sound.ends_iff (h : Sound routes T) (method : Method) (path : Bytes) :
    Ends T routes method path ↔ Router.findRoute routes method path ≠ none := by
  constructor
  · rintro ⟨tree, A, B, n, m, handler, htree, -, hA, hn, hfirst, hopt, hr⟩
    have hne : find (segments path) tree ≠ none :=
      (find_ne_none (h.distinct method tree htree)).mpr
        ⟨A, n, hA, hn, by rw [ending_eq_some.mpr ⟨m, hfirst, hopt, hr⟩]; simp⟩
    rw [Router.findRoute, htree, Option.bind_some, findRoute_eq]
    exact fun hnone => hne (Option.map_eq_none_iff.mp hnone)
  · intro hne
    obtain ⟨found, hfound⟩ := Option.ne_none_iff_exists'.mp hne
    obtain ⟨tree, htree, hfind⟩ := Option.bind_eq_some_iff.mp hfound
    have hd := h.distinct method tree htree
    rw [findRoute_eq] at hfind
    obtain ⟨e, he, -⟩ := Option.map_eq_some_iff.mp hfind
    obtain ⟨A, B, n, -, hA, hn, hend⟩ := find_some hd he
    obtain ⟨m, hfirst, hopt, hr⟩ := ending_eq_some.mp hend
    refine ⟨tree, A, B, n, m, e.2, htree, h.routes method tree _ _ htree ?_, hA, hn, hfirst, hopt,
      hr⟩
    rw [routeAt, nodeAt_append, hn, Option.bind_some, hfirst.nodeAt]
    exact hr

theorem Sound.registered (h : Sound routes T) {method : Method} {path : Bytes}
    (hne : Router.findRoute routes method path ≠ none) : Registered T method path := by
  obtain ⟨found, hfound⟩ := Option.ne_none_iff_exists'.mp hne
  obtain ⟨K, hin, hmatch, -⟩ := h.found hfound
  exact ⟨K, found.route, hin, hmatch⟩

theorem supportedMethods_sublist (method : Method) (path : Bytes) : ∀ routes : Routes H σ,
    (Router.supportedMethods routes method path).Sublist routes.keys
  | [] => List.Sublist.refl _
  | entry :: routes => by
    have ih := supportedMethods_sublist method path routes
    unfold Router.supportedMethods at ih ⊢
    rw [List.filterMap_cons, List.keys_cons]
    by_cases hm : entry.1 = method
    · rw [if_pos hm]
      exact ih.cons entry.1
    · rw [if_neg hm]
      by_cases hfind : (entry.2.findRoute path).isSome = true
      · rw [if_pos hfind]
        exact ih.cons_cons entry.1
      · rw [if_neg hfind]
        exact ih.cons entry.1

/-- The other methods that are found, each once. -/
theorem Sound.supported (h : Sound routes T) (method : Method) (path : Bytes) :
    (Router.supportedMethods routes method path).Nodup ∧
      ∀ m, m ∈ Router.supportedMethods routes method path ↔
        m ≠ method ∧ Router.findRoute routes m path ≠ none := by
  constructor
  · have hkeys : routes.keys.Nodup := h.keys
    exact hkeys.sublist (supportedMethods_sublist method path routes)
  · intro m
    unfold Router.supportedMethods Router.findRoute
    rw [List.mem_filterMap]
    constructor
    · rintro ⟨⟨key, tree⟩, hmem, hkey⟩
      split at hkey
      · cases hkey
      · next hne =>
        split at hkey
        · next hsome =>
          obtain rfl := Option.some.inj hkey
          refine ⟨hne, ?_⟩
          rw [List.mem_dlookup h.keys hmem, Option.bind_some]
          exact Option.isSome_iff_ne_none.mp hsome
        · cases hkey
    · rintro ⟨hne, hfind⟩
      obtain ⟨found, hfound⟩ := Option.ne_none_iff_exists'.mp hfind
      obtain ⟨tree, htree, hfind⟩ := Option.bind_eq_some_iff.mp hfound
      refine ⟨⟨m, tree⟩, List.of_mem_dlookup htree, ?_⟩
      rw [if_neg hne, if_pos (by rw [hfind]; rfl)]

end Lookups

/-! ## What the router decides -/

section Decision

variable {router : Router H σ} {T : RouteTable H σ} {request : Request H} {shared : σ}
variable {replies : List (Reply Bool)} {req : Request H} {s s' : σ}
variable {customReplies : List (Reply Result)}

theorem route_stopped {r : Request H × σ} {reply : Reply Bool}
    (hne : request.own.resource_ ≠ [])
    (h : Asked Reply.goesOn router.middlewares (request, shared) replies r (some reply)) :
    router.route request shared =
      (replies.map .middleware, reply.result.map fun _ => .Match) := by
  simp only [Router.route, if_neg hne, ask_of_asked h]

theorem route_found {found : Found (Handler H σ)} (hne : request.own.resource_ ≠ [])
    (h : Passed router request shared replies req s)
    (hfound : Router.findRoute router.routes req.own.method_ (pathOf request) = some found) :
    router.route request shared =
      (replies.map .middleware ++ [.route found.route found.params found.splats
        (found.route ⟨req, found.params, found.splats⟩ s).2],
        (found.route ⟨req, found.params, found.splats⟩ s).2.result.map fun _ => .Match) := by
  rw [pathOf] at hfound
  simp only [Router.route, if_neg hne, ask_of_asked h, hfound]

theorem route_custom {reply : Reply Result} (hne : request.own.resource_ ≠ [])
    (h : Passed router request shared replies req s)
    (hnone : Router.findRoute router.routes req.own.method_ (pathOf request) = none)
    (hcustom : AskedCustom router req s customReplies s' (some reply)) :
    router.route request shared =
      (replies.map .middleware ++ customReplies.map .custom,
        reply.result.map fun _ => .Match) := by
  rw [pathOf] at hnone
  simp only [Router.route, if_neg hne, ask_of_asked h, hnone, ask_of_asked hcustom]

theorem route_fallback (hne : request.own.resource_ ≠ [])
    (h : Passed router request shared replies req s)
    (hnone : Router.findRoute router.routes req.own.method_ (pathOf request) = none)
    (hcustom : AskedCustom router req s customReplies s' none) :
    router.route request shared =
      (replies.map .middleware ++ customReplies.map .custom ++
        [(router.fallback req (pathOf request) s').1],
        (router.fallback req (pathOf request) s').2) := by
  rw [pathOf] at hnone
  simp only [Router.route, if_neg hne, ask_of_asked h, hnone, ask_of_asked hcustom, pathOf]

/-- The last answer is one of three. -/
theorem fallback_cases (router : Router H σ) (req : Request H) (path : Bytes) (s : σ) :
    (Router.supportedMethods router.routes req.own.method_ path ≠ [] ∧
      router.fallback req path s =
        (.sendMethodNotAllowed (Router.supportedMethods router.routes req.own.method_ path),
          .ok .NotAllowed)) ∨
    (Router.supportedMethods router.routes req.own.method_ path = [] ∧
      ∃ handler, router.notFoundHandler = some handler ∧ router.fallback req path s =
        (.notFoundHandler (handler ⟨req, [], []⟩ s).2,
          (handler ⟨req, [], []⟩ s).2.result.map fun _ => .NotFound)) ∨
    (Router.supportedMethods router.routes req.own.method_ path = [] ∧
      router.notFoundHandler = none ∧ router.fallback req path s =
        (.sendNotFound (lit "Could not find a matching route"), .ok .NotFound)) := by
  unfold Router.fallback
  by_cases hsup : Router.supportedMethods router.routes req.own.method_ path = []
  · rw [if_neg (not_not.mpr hsup)]
    cases hnf : router.notFoundHandler with
    | some handler => exact .inr (.inl ⟨hsup, handler, rfl, rfl⟩)
    | none => exact .inr (.inr ⟨hsup, rfl, rfl⟩)
  · rw [if_pos hsup]
    exact .inl ⟨hsup, rfl⟩

/-- Without a route found, no event is a route's. -/
theorem no_route_event {handler : Handler H σ} {ps ss : List TypedParam} {reply : Reply Result}
    (hne : request.own.resource_ ≠ []) (h : Passed router request shared replies req s)
    (hnone : Router.findRoute router.routes req.own.method_ (pathOf request) = none) :
    Event.route handler ps ss reply ∉ (router.route request shared).1 := by
  obtain ⟨customReplies, s', last, hcustom⟩ :
      ∃ customReplies s' last, AskedCustom router req s customReplies s' last :=
    ⟨_, _, _, asked_ask _ s⟩
  intro hmem
  cases last with
  | some r =>
    rw [route_custom hne h hnone hcustom] at hmem
    simp at hmem
  | none =>
    rw [route_fallback hne h hnone hcustom] at hmem
    rcases fallback_cases router req (pathOf request) s' with ⟨-, heq⟩ | ⟨-, _, -, heq⟩ | ⟨-, -, heq⟩
    all_goals
      rw [heq] at hmem
      simp at hmem

/-- The lookups say what is registered: then `route` does what it is for. -/
theorem outcome_of_lookupsRight (hs : Sound router.routes T) (hne : request.own.resource_ ≠ [])
    (hright : LookupsRight router T request shared) :
    Outcome router T request shared (router.route request shared).1
      (router.route request shared).2 := by
  obtain ⟨replies, ⟨req, s⟩, last, hasked⟩ : ∃ replies r last,
      Asked Reply.goesOn router.middlewares (request, shared) replies r last :=
    ⟨_, _, _, asked_ask _ _⟩
  cases last with
  | some reply =>
    rw [route_stopped hne hasked]
    exact .middleware hasked
  | none =>
    obtain ⟨hshown, hothers⟩ := hright replies req s hasked
    cases hfound : Router.findRoute router.routes req.own.method_ (pathOf request) with
    | some found =>
      obtain ⟨K, hin, hmatch, hparams, hsplats⟩ := hs.found hfound
      rw [route_found hne hasked hfound, hparams, hsplats]
      exact .route hasked hin hmatch rfl
    | none =>
      have hunregistered : ¬Registered T req.own.method_ (pathOf request) := fun hreg =>
        (hs.ends_iff _ _).mp (hshown hreg) hfound
      obtain ⟨customReplies, s', last, hcustom⟩ :
          ∃ customReplies s' last, AskedCustom router req s customReplies s' last :=
        ⟨_, _, _, asked_ask _ s⟩
      cases last with
      | some reply =>
        rw [route_custom hne hasked hfound hcustom]
        exact .custom hasked hunregistered hcustom
      | none =>
        obtain ⟨hnodup, hsupported⟩ := hs.supported req.own.method_ (pathOf request)
        have hmethods : ∀ m, m ∈ Router.supportedMethods router.routes req.own.method_
            (pathOf request) ↔ m ≠ req.own.method_ ∧ Registered T m (pathOf request) := by
          intro m
          rw [hsupported]
          refine and_congr_right fun hm => ⟨hs.registered, fun hreg => ?_⟩
          exact (hs.ends_iff _ _).mp (hothers hunregistered customReplies s' hcustom m hm hreg)
        have hnowhere : Router.supportedMethods router.routes req.own.method_ (pathOf request) = [] →
            ∀ m, ¬Registered T m (pathOf request) := by
          intro hempty m hreg
          by_cases hm : m = req.own.method_
          · exact hunregistered (hm ▸ hreg)
          · have := (hmethods m).mpr ⟨hm, hreg⟩
            rw [hempty] at this
            cases this
        rw [route_fallback hne hasked hfound hcustom]
        rcases fallback_cases router req (pathOf request) s' with
          ⟨hsup, heq⟩ | ⟨hsup, handler, hnf, heq⟩ | ⟨hsup, hnf, heq⟩
        · rw [heq]
          exact .notAllowed hasked hunregistered hcustom hnodup hsup hmethods
        · rw [heq]
          exact .notFoundHandler hasked (hnowhere hsup) hcustom hnf rfl
        · rw [heq]
          exact .notFound hasked (hnowhere hsup) hcustom hnf

theorem Passed.unique {replies₂ : List (Reply Bool)} {req₂ : Request H} {s₂ : σ}
    (h : Passed router request shared replies req s)
    (h₂ : Passed router request shared replies₂ req₂ s₂) : req = req₂ ∧ s = s₂ := by
  obtain ⟨-, heq, -⟩ := Asked.unique h h₂
  exact Prod.mk.inj heq

theorem Passed.not_stopped {r : Request H × σ} {rs : List (Reply Bool)} {reply : Reply Bool}
    (h : Passed router request shared replies req s)
    (h₂ : Asked Reply.goesOn router.middlewares (request, shared) rs r (some reply)) : False := by
  obtain ⟨-, -, hlast⟩ := Asked.unique h h₂
  cases hlast

/-- `route` does what it is for: then the lookups say what is registered. -/
theorem lookupsRight_of_outcome (hs : Sound router.routes T) (hne : request.own.resource_ ≠ [])
    (hout : Outcome router T request shared (router.route request shared).1
      (router.route request shared).2) : LookupsRight router T request shared := by
  intro replies req s hasked
  cases hfound : Router.findRoute router.routes req.own.method_ (pathOf request) with
  | some found =>
    have hsome : Router.findRoute router.routes req.own.method_ (pathOf request) ≠ none := by
      rw [hfound]
      simp
    exact ⟨fun _ => (hs.ends_iff _ _).mpr hsome, fun hnot => absurd (hs.registered hsome) hnot⟩
  | none =>
    have hnoroute : ∀ handler ps ss reply,
        Event.route handler ps ss reply ∉ (router.route request shared).1 :=
      fun _ _ _ _ => no_route_event hne hasked hfound
    generalize hevents : (router.route request shared).1 = events at hout hnoroute
    generalize (router.route request shared).2 = outcome at hout
    have hunregistered : ¬Registered T req.own.method_ (pathOf request) := by
      cases hout with
      | middleware h => exact absurd (hasked.not_stopped h) id
      | route h =>
        exact absurd (List.mem_append_right _ List.mem_cons_self) (hnoroute _ _ _ _)
      | custom h hnot =>
        obtain ⟨rfl, -⟩ := hasked.unique h
        exact hnot
      | notAllowed h hnot =>
        obtain ⟨rfl, -⟩ := hasked.unique h
        exact hnot
      | notFoundHandler h hnot => exact hnot _
      | notFound h hnot => exact hnot _
    refine ⟨fun hreg => absurd hreg hunregistered, fun _ customReplies s' hcustom m hm hreg => ?_⟩
    rw [route_fallback hne hasked hfound hcustom] at hevents
    cases hout with
    | middleware h => exact absurd (hasked.not_stopped h) id
    | route h =>
      exact absurd (List.mem_append_right _ List.mem_cons_self) (hnoroute _ _ _ _)
    | custom h _ hother =>
      obtain ⟨rfl, rfl⟩ := hasked.unique h
      obtain ⟨-, -, hlast⟩ := Asked.unique hcustom hother
      cases hlast
    | @notAllowed _ _ _ _ _ methods h _ hother _ _ hmethods =>
      obtain ⟨rfl, rfl⟩ := hasked.unique h
      have hin : m ∈ methods := (hmethods m).mpr ⟨hm, hreg⟩
      have hlast : (router.fallback req (pathOf request) s').1 = .sendMethodNotAllowed methods := by
        have := congrArg List.getLast? hevents
        simpa using this
      rcases fallback_cases router req (pathOf request) s' with
        ⟨-, heq⟩ | ⟨-, _, -, heq⟩ | ⟨-, -, heq⟩
      · rw [heq] at hlast
        obtain rfl := Event.sendMethodNotAllowed.inj hlast
        exact (hs.ends_iff _ _).mpr (((hs.supported _ _).2 m).mp hin).2
      · rw [heq] at hlast
        cases hlast
      · rw [heq] at hlast
        cases hlast
    | notFoundHandler h hnot => exact absurd hreg (hnot m)
    | notFound h hnot => exact absurd hreg (hnot m)

end Decision

/-- **`route` does what the router is for** exactly when the lookups that it needs show the
patterns that are registered, for routes built by any calls. -/
theorem route_outcome (router : Router H σ) (T : RouteTable H σ) (hbuilt : Built router.routes T)
    (request : Request H) (hne : request.own.resource_ ≠ []) (shared : σ) :
    Outcome router T request shared (router.route request shared).1
        (router.route request shared).2 ↔
      LookupsRight router T request shared :=
  ⟨lookupsRight_of_outcome (sound_built hbuilt) hne,
    outcome_of_lookupsRight (sound_built hbuilt) hne⟩

/-! ## Routes that hide each other -/

/-- A new method goes behind those already there. -/
def MethodOrder.back : MethodOrder H σ :=
  ⟨fun method routes => routes ++ [⟨method, .empty⟩], fun _ _ => List.perm_append_singleton _ _⟩

/-- A handler that sends one response. -/
def answering : Handler Unit Unit := fun _ shared => (shared, ⟨1, .ok .Ok⟩)

/-- `Routes::Get(router, resource, handler)`. -/
def getRoute (resource : Bytes) : RouteCall Unit Unit :=
  .add .back .back .Get resource answering

/-- A request with the method GET. -/
def getRequest (resource : Bytes) : Request Unit :=
  { own := { method_ := .Get, resource_ := resource } }

/-- The routes `/a` and `/a/:x?/b`. -/
def hidingRoutes : Routes Unit Unit :=
  ((getRoute (lit "/a/:x?/b")).run ((getRoute (lit "/a")).run []).1).1

def hidingTable : RouteTable Unit Unit :=
  (getRoute (lit "/a/:x?/b")).register ((getRoute (lit "/a")).register fun _ => [])

theorem built_hiding : Built hidingRoutes hidingTable :=
  (Built.start.call (getRoute (lit "/a"))).call (getRoute (lit "/a/:x?/b"))

/-- A request for the path of a registered pattern gets the automatic 404. -/
theorem outcome_hidden : Built hidingRoutes hidingTable ∧
    (getRequest (lit "/a")).own.resource_ ≠ [] ∧
    ¬Outcome ⟨hidingRoutes, [], [], none⟩ hidingTable (getRequest (lit "/a")) ()
      ((⟨hidingRoutes, [], [], none⟩ : Router Unit Unit).route (getRequest (lit "/a")) ()).1
      ((⟨hidingRoutes, [], [], none⟩ : Router Unit Unit).route (getRequest (lit "/a")) ()).2 := by
  have hs := sound_built built_hiding
  refine ⟨built_hiding, by decide, fun hout => ?_⟩
  have hright := lookupsRight_of_outcome hs (by decide) hout
  have hregistered : Registered hidingTable .Get (pathOf (getRequest (lit "/a"))) :=
    ⟨[.fixed (lit "a")], answering, List.mem_cons_self, rfl, trivial⟩
  have hends := (hright [] (getRequest (lit "/a")) () (.none _)).1 hregistered
  have hnone : (Router.findRoute hidingRoutes .Get (pathOf (getRequest (lit "/a")))).isNone = true :=
    by decide
  exact (hs.ends_iff _ _).mp hends (Option.isNone_iff_eq_none.mp hnone)

theorem route_outcome_taken :
    Outcome ⟨hidingRoutes, [], [], none⟩ hidingTable (getRequest (lit "/a/z/b")) ()
        ((⟨hidingRoutes, [], [], none⟩ : Router Unit Unit).route (getRequest (lit "/a/z/b")) ()).1
        ((⟨hidingRoutes, [], [], none⟩ : Router Unit Unit).route (getRequest (lit "/a/z/b")) ()).2 ↔
      LookupsRight ⟨hidingRoutes, [], [], none⟩ hidingTable (getRequest (lit "/a/z/b")) () :=
  route_outcome ⟨hidingRoutes, [], [], none⟩ hidingTable built_hiding (getRequest (lit "/a/z/b"))
    (by decide) ()

end Pistache.Rest
