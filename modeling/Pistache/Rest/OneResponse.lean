import Mathlib.Algebra.BigOperators.Group.List.Basic
import Pistache.Http.Handler
import Pistache.Rest.RouteOutcome

/-!
# One response for a request

`Handler::onInput` answers every exception that leaves `onRequest` with an error response of
its own, and `Router::route` answers by itself where no hook has taken the request.  Neither
knows whether a hook has sent a response already.

* `automatic_of_ends`, `ends_or_automatic` — when the server answers by itself, and then once.
* `one_response` — for a handler or a router whose hooks send at most one response, exactly when
  a call of `onInput` sends no second one.
-/

set_option autoImplicit false

namespace Pistache.Rest

open Http Hooks SegmentTreeNode

variable {H σ : Type}

/-! ## Counting responses -/

/-- The responses that a call of `onInput` sends; `sends` are those of `onRequest`. -/
def responses (sends : Request H → Nat) (events : List (Http.Event H)) : Nat :=
  (events.map fun
    | .onRequest request _ => sends request
    | .send .. => 1).sum

/-- Those that the hook of an event sends. -/
def Event.hookSent : Event H σ → Nat
  | .middleware reply => reply.sent
  | .route _ _ _ reply => reply.sent
  | .custom reply => reply.sent
  | .notFoundHandler reply => reply.sent
  | .sendMethodNotAllowed _ => 0
  | .sendNotFound _ => 0

/-- Those of the router itself. -/
def Event.automatic : Event H σ → Nat
  | .sendMethodNotAllowed _ => 1
  | .sendNotFound _ => 1
  | _ => 0

namespace Router

variable (router : Router H σ) (request : Request H) (shared : σ)

/-- `RouterHandler::onRequest`: the status is dropped, an exception is not caught. -/
def handler (registry : Registry H) : Http.Handler H where
  registry := registry
  onRequest request :=
    match (router.route request shared).2 with
    | .ok _ => none
    | .error e => some e

/-- The responses that the hooks send. -/
def hookSent : Nat := ((router.route request shared).1.map Event.hookSent).sum

/-- The responses that `route` and the hooks send. -/
def sent : Nat :=
  ((router.route request shared).1.map fun event => event.hookSent + event.automatic).sum

/-- A hook ends the request: it returns, and nothing is answered behind it. -/
inductive EndsByHook : Prop where
  | middleware {replies s reply} :
      Asked Reply.goesOn router.middlewares (request, shared) replies s (some reply) →
      reply.result = .ok false → EndsByHook
  | route {replies req s found result} : Passed router request shared replies req s →
      Router.findRoute router.routes req.own.method_ (pathOf request) = some found →
      (found.route ⟨req, found.params, found.splats⟩ s).2.result = .ok result → EndsByHook
  | custom {replies req s customReplies s' reply} : Passed router request shared replies req s →
      Router.findRoute router.routes req.own.method_ (pathOf request) = none →
      AskedCustom router req s customReplies s' (some reply) → reply.result = .ok .Ok → EndsByHook
  | notFoundHandler {replies req s customReplies s' handler result} :
      Passed router request shared replies req s →
      Router.findRoute router.routes req.own.method_ (pathOf request) = none →
      AskedCustom router req s customReplies s' none →
      Router.supportedMethods router.routes req.own.method_ (pathOf request) = [] →
      router.notFoundHandler = some handler →
      (handler ⟨req, [], []⟩ s').2.result = .ok result → EndsByHook

end Router

/-! ## The router -/

section Route

variable {router : Router H σ} {request : Request H} {shared : σ}

/-- The automatic answers to a request: of the router, and for what it throws. -/
def automatic (run : List (Event H σ) × Except Exn Status) : Nat :=
  (run.1.map Event.automatic).sum + match run.2 with
    | .ok _ => 0
    | .error _ => 1

theorem sum_automatic_middleware (replies : List (Reply Bool)) :
    (replies.map (Event.automatic ∘ (Event.middleware : Reply Bool → Event H σ))).sum = 0 := by
  induction replies with
  | nil => rfl
  | cons reply replies ih => simpa [Event.automatic] using ih

theorem sum_automatic_custom (replies : List (Reply Result)) :
    (replies.map (Event.automatic ∘ (Event.custom : Reply Result → Event H σ))).sum = 0 := by
  induction replies with
  | nil => rfl
  | cons reply replies ih => simpa [Event.automatic] using ih

theorem sent_eq : router.sent request shared =
    router.hookSent request shared + ((router.route request shared).1.map Event.automatic).sum := by
  unfold Router.sent Router.hookSent
  exact List.sum_map_add

/-- A hook that ends the request is the last that answers. -/
theorem automatic_of_ends (hne : request.own.resource_ ≠ [])
    (h : router.EndsByHook request shared) : automatic (router.route request shared) = 0 := by
  cases h with
  | middleware hasked hreply =>
    rw [route_stopped hne hasked, hreply]
    simp [automatic, Except.map, sum_automatic_middleware]
  | route hasked hfound hresult =>
    rw [route_found hne hasked hfound, hresult]
    simp [automatic, Except.map, sum_automatic_middleware, Event.automatic]
  | custom hasked hnone hcustom hreply =>
    rw [route_custom hne hasked hnone hcustom, hreply]
    simp [automatic, Except.map, sum_automatic_middleware, sum_automatic_custom]
  | @notFoundHandler _ req _ _ s' _ _ hasked hnone hcustom hsup hnf hresult =>
    rw [route_fallback hne hasked hnone hcustom]
    rcases fallback_cases router req (pathOf request) s' with
      ⟨hsup', -⟩ | ⟨-, handler, hnf', heq⟩ | ⟨-, hnf', -⟩
    · exact absurd hsup hsup'
    · obtain rfl := Option.some.inj (hnf.symm.trans hnf')
      rw [heq, hresult]
      simp [automatic, Except.map, sum_automatic_middleware, sum_automatic_custom, Event.automatic]
    · rw [hnf] at hnf'
      cases hnf'

/-- Otherwise the server answers once: for what a hook throws, or at the end of `route`. -/
theorem ends_or_automatic (hne : request.own.resource_ ≠ []) :
    router.EndsByHook request shared ∨ automatic (router.route request shared) = 1 := by
  obtain ⟨replies, ⟨req, s⟩, last, hasked⟩ : ∃ replies r last,
      Asked Reply.goesOn router.middlewares (request, shared) replies r last :=
    ⟨_, _, _, asked_ask _ _⟩
  cases last with
  | some reply =>
    cases hreply : reply.result with
    | error e =>
      rw [route_stopped hne hasked, hreply]
      exact .inr (by simp [automatic, Except.map, sum_automatic_middleware])
    | ok b =>
      have hb : b = false := by
        have := hasked.not_passes.1
        unfold Reply.goesOn at this
        rw [hreply] at this
        cases b with
        | false => rfl
        | true => cases this
      exact .inl (.middleware hasked (hb ▸ hreply))
  | none =>
    cases hfound : Router.findRoute router.routes req.own.method_ (pathOf request) with
    | some found =>
      cases hresult : (found.route ⟨req, found.params, found.splats⟩ s).2.result with
      | ok result => exact .inl (.route hasked hfound hresult)
      | error e =>
        rw [route_found hne hasked hfound, hresult]
        exact .inr (by simp [automatic, Except.map, sum_automatic_middleware, Event.automatic])
    | none =>
      obtain ⟨customReplies, s', last, hcustom⟩ :
          ∃ customReplies s' last, AskedCustom router req s customReplies s' last :=
        ⟨_, _, _, asked_ask _ s⟩
      cases last with
      | some reply =>
        cases hreply : reply.result with
        | error e =>
          rw [route_custom hne hasked hfound hcustom, hreply]
          exact .inr (by simp [automatic, Except.map, sum_automatic_middleware,
            sum_automatic_custom])
        | ok result =>
          have hresult : result = .Ok := by
            have := hcustom.not_passes.1
            unfold Reply.declines at this
            rw [hreply] at this
            cases result with
            | Ok => rfl
            | Failure => cases this
          exact .inl (.custom hasked hfound hcustom (hresult ▸ hreply))
      | none =>
        rw [route_fallback hne hasked hfound hcustom]
        rcases fallback_cases router req (pathOf request) s' with
          ⟨-, heq⟩ | ⟨hsup, handler, hnf, heq⟩ | ⟨-, -, heq⟩
        · rw [heq]
          exact .inr (by simp [automatic, sum_automatic_middleware, sum_automatic_custom,
            Event.automatic])
        · cases hresult : (handler ⟨req, [], []⟩ s').2.result with
          | ok result => exact .inl (.notFoundHandler hasked hfound hcustom hsup hnf hresult)
          | error e =>
            rw [heq, hresult]
            exact .inr (by simp [automatic, Except.map, sum_automatic_middleware,
              sum_automatic_custom, Event.automatic])
        · rw [heq]
          exact .inr (by simp [automatic, sum_automatic_middleware, sum_automatic_custom,
            Event.automatic])

end Route

/-! ## The server -/

section Server

variable (sends : Request H → Nat) (handler : Http.Handler H)

theorem responses_sendError (version : Version) (e : Exn) :
    responses sends [Http.Handler.sendError version e] = 1 := by
  cases e <;> rfl

theorem responses_serve (request : Request H) :
    responses sends (handler.serve request) = sends request +
      match handler.onRequest request with
      | none => 0
      | some _ => 1 := by
  unfold Http.Handler.serve
  cases handler.onRequest request with
  | none => rfl
  | some e =>
    have h := responses_sendError sends request.version_ e
    simp only [responses, List.map_cons, List.map_nil, List.sum_cons, List.sum_nil] at h ⊢
    omega

/-- A call of `onInput` hands one request on, or none and answers at most once. -/
theorem onInput_cases (p : ParserBase H RequestLine) (input : Bytes) :
    (requests (handler.onInput p input).1 = [] ∧
      responses sends (handler.onInput p input).1 ≤ 1) ∨
    ∃ request, (handler.onInput p input).1 = handler.serve request := by
  unfold Http.Handler.onInput
  cases p.feed input with
  | none => exact .inl ⟨requests_sendError _ _, (responses_sendError sends _ _).le⟩
  | some p =>
    dsimp only
    generalize RequestParser.parse handler.registry p = o
    obtain ⟨state, q⟩ := o
    cases state with
    | Done => exact .inr ⟨q.message, rfl⟩
    | thrown e => exact .inl ⟨requests_sendError _ _, (responses_sendError sends _ _).le⟩
    | Again => exact .inl ⟨rfl, Nat.zero_le _⟩
    | Next => exact .inl ⟨rfl, Nat.zero_le _⟩

/-- A handler: a second response is one for an exception behind the first. -/
theorem responses_handler {p : ParserBase H RequestLine} {input : Bytes}
    (hsends : ∀ request ∈ requests (handler.onInput p input).1, sends request ≤ 1) :
    responses sends (handler.onInput p input).1 ≤ 1 ↔
      ∀ request ∈ requests (handler.onInput p input).1,
        sends request = 0 ∨ handler.onRequest request = none := by
  rcases onInput_cases sends handler p input with ⟨hnone, hle⟩ | ⟨request, hserve⟩
  · rw [hnone]
    exact iff_of_true hle nofun
  · rw [hserve, requests_serve] at hsends ⊢
    have hone := hsends request List.mem_cons_self
    rw [responses_serve]
    simp only [List.mem_singleton, forall_eq]
    cases handler.onRequest request with
    | none => simpa using hone
    | some e =>
      simp only [reduceCtorEq, or_false]
      omega

end Server

/-- What the router's handler adds to the responses of the hooks. -/
theorem sent_handler (registry : Registry H) (router : Router H σ) (shared : σ)
    (request : Request H) :
    (router.sent request shared + match (router.handler shared registry).onRequest request with
      | none => 0
      | some _ => 1) =
      router.hookSent request shared + automatic (router.route request shared) := by
  rw [sent_eq, automatic, Nat.add_assoc]
  congr 2
  have hthrows : (router.handler shared registry).onRequest request =
      match (router.route request shared).2 with
      | .ok _ => none
      | .error e => some e := rfl
  rw [hthrows]
  cases (router.route request shared).2 <;> rfl

/-- **At most one response**, for a handler and for the hooks of a router of which at most one
sends: exactly when what has sent does not throw, and when with a router a hook ends the request
in which one has sent. -/
theorem one_response :
    (∀ (handler : Http.Handler H) (sends : Request H → Nat) (p : ParserBase H RequestLine)
      (input : Bytes), (∀ request ∈ requests (handler.onInput p input).1, sends request ≤ 1) →
      (responses sends (handler.onInput p input).1 ≤ 1 ↔
        ∀ request ∈ requests (handler.onInput p input).1,
          sends request = 0 ∨ handler.onRequest request = none)) ∧
    ∀ (registry : Registry H) (router : Router H σ) (shared : σ) (p : ParserBase H RequestLine)
      (input : Bytes), (∀ request ∈ requests ((router.handler shared registry).onInput p input).1,
        router.hookSent request shared ≤ 1) →
      (responses (router.sent · shared) ((router.handler shared registry).onInput p input).1 ≤ 1 ↔
        ∀ request ∈ requests ((router.handler shared registry).onInput p input).1,
          router.hookSent request shared = 0 ∨ router.EndsByHook request shared) := by
  refine ⟨fun handler sends p input => responses_handler sends handler, ?_⟩
  intro registry router shared p input hsends
  rcases onInput_cases (router.sent · shared) (router.handler shared registry) p input with
    ⟨hnone, hle⟩ | ⟨request, hserve⟩
  · rw [hnone]
    exact iff_of_true hle nofun
  · rw [hserve, requests_serve] at hsends ⊢
    have hone := hsends request List.mem_cons_self
    have htotal := sent_handler registry router shared request
    rw [responses_serve, htotal]
    simp only [List.mem_singleton, forall_eq]
    by_cases hne : request.own.resource_ = []
    · -- no hook has run
      have hroute : router.route request shared =
          ([], .error (.std "Invalid zero-length URL.")) := by
        rw [Router.route, if_pos hne]
      have hhook : router.hookSent request shared = 0 := by
        rw [Router.hookSent, hroute]
        rfl
      rw [hhook, hroute]
      exact iff_of_true (Nat.le_refl 1) (.inl rfl)
    · rcases ends_or_automatic hne with hends | hauto
      · rw [automatic_of_ends hne hends]
        exact iff_of_true hone (.inr hends)
      · have hnot : ¬router.EndsByHook request shared := by
          intro hends
          rw [automatic_of_ends hne hends] at hauto
          cases hauto
        rw [hauto, or_iff_left hnot]
        omega

/-! ## Two responses -/

/-- A handler that sends a response and throws behind it. -/
def throwing : Http.Handler Unit := ⟨Registry.basic, fun _ => some (.std "later")⟩

/-- A custom handler that sends a response and leaves the request to others, as the handler of
`Swagger::install` does for a file outside of its directory. -/
def declining : Router Unit Unit :=
  ⟨[], [fun _ shared => (shared, ⟨1, .ok .Failure⟩)], [], none⟩

theorem two_responses :
    (∀ request, (fun _ : Request Unit => 1) request ≤ 1) ∧
    responses (fun _ => 1)
      (throwing.onInput (RequestParser.new 4096) (lit "GET / HTTP/1.1\r\n\r\n")).1 = 2 ∧
    (∀ request, declining.hookSent request () ≤ 1) ∧
    responses (declining.sent · ()) ((declining.handler () Registry.basic).onInput
      (RequestParser.new 4096) (lit "GET / HTTP/1.1\r\n\r\n")).1 = 2 := by
  refine ⟨fun _ => Nat.le_refl 1, by decide, fun request => ?_, by decide⟩
  by_cases hne : request.own.resource_ = []
  · have hroute : declining.route request () = ([], .error (.std "Invalid zero-length URL.")) := by
      rw [Router.route, if_pos hne]
    rw [Router.hookSent, hroute]
    exact Nat.zero_le 1
  · rw [Router.hookSent, Router.route, if_neg hne]
    exact Nat.le_refl 1

theorem one_response_hiding :
    responses ((⟨hidingRoutes, [], [], none⟩ : Router Unit Unit).sent · ())
        (((⟨hidingRoutes, [], [], none⟩ : Router Unit Unit).handler () Registry.basic).onInput
          (RequestParser.new 4096) (lit "GET /a/z/b HTTP/1.1\r\n\r\n")).1 ≤ 1 ↔
      ∀ request ∈ requests
        (((⟨hidingRoutes, [], [], none⟩ : Router Unit Unit).handler () Registry.basic).onInput
          (RequestParser.new 4096) (lit "GET /a/z/b HTTP/1.1\r\n\r\n")).1,
        (⟨hidingRoutes, [], [], none⟩ : Router Unit Unit).hookSent request () = 0 ∨
          (⟨hidingRoutes, [], [], none⟩ : Router Unit Unit).EndsByHook request () :=
  one_response.2 Registry.basic ⟨hidingRoutes, [], [], none⟩ () (RequestParser.new 4096)
    (lit "GET /a/z/b HTTP/1.1\r\n\r\n") (by decide)

end Pistache.Rest
