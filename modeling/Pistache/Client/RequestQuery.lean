import Pistache.Client.WriteRequest

/-!
# The request line read back

What `RequestLineStep` makes of the request line that `writeRequest` has written: of the path of
the URL, of the query of the URL, and of the parameters that have been added.  `as_str` begins
with a `?` even if the URL has one, and nothing is encoded.

Principal results:

* `requestLine_iff` — when the resource and the query come back.
* `query_reread` — a query that the step itself has read always does.
-/

set_option autoImplicit false

namespace Pistache.Client

open Http Replay
open RequestLineStep (questionMark ampersand targetResource targetQuery targetRead)

/-! ## The parts of a URL -/

/-- What stands behind the host. -/
def urlPage (url : Bytes) : Bytes := (splitUrl url false).2.1

/-- The path, `/` when there is none. -/
def urlPath (url : Bytes) : Bytes :=
  if (urlPage url).takeWhile (· ≠ questionMark) = [] then [slash]
  else (urlPage url).takeWhile (· ≠ questionMark)

/-- The text behind the `?`. -/
def urlQuery (url : Bytes) : Bytes := ((urlPage url).dropWhile (· ≠ questionMark)).drop 1

/-- The parameters of the URL itself. -/
def urlParams (url : Bytes) : List (Bytes × Bytes) := (pieces (urlQuery url)).map param

/-- The parts of the request line come back. -/
structure LineSurvives (request : RequestLine) : Prop where
  path : SP ∉ urlPath request.resource_
  query : SP ∉ urlQuery request.resource_
  keys : ((urlParams request.resource_).map Prod.fst).Nodup
  one : questionMark ∉ urlPage request.resource_ ∨ request.query_ = []
  names : ∀ e ∈ request.query_, Cookie.equals ∉ e.1 ∧ ampersand ∉ e.1 ∧ SP ∉ e.1
  values : ∀ e ∈ request.query_, ampersand ∉ e.2 ∧ SP ∉ e.2

/-! ## The target -/

theorem methodString_read (m : Method) :
    SP ∉ Header.methodString m ∧ httpMethods.lookup (Header.methodString m) = some m := by
  cases m <;> exact ⟨by decide, rfl⟩

/-- A text whose first `?` is known. -/
theorem takeWhile_question {front back : Bytes} (hfront : questionMark ∉ front)
    (hback : back = [] ∨ back.head? = some questionMark) :
    targetResource (front ++ back) = front ∧ (front ++ back).dropWhile (· ≠ questionMark) = back := by
  have hall : ∀ c ∈ front, decide (c ≠ questionMark) = true := fun c hc => by
    rw [decide_eq_true_iff]
    rintro rfl
    exact hfront hc
  unfold targetResource
  rw [List.takeWhile_append_of_pos hall, List.dropWhile_append_of_pos hall]
  cases back with
  | nil => simp
  | cons c back =>
    obtain rfl : c = questionMark := by simpa using hback
    simp

theorem dropWhile_question (text : Bytes) :
    text.dropWhile (· ≠ questionMark) = [] ∧ questionMark ∉ text ∨
      ∃ rest, text.dropWhile (· ≠ questionMark) = questionMark :: rest ∧ questionMark ∈ text := by
  cases hd : text.dropWhile (· ≠ questionMark) with
  | nil =>
    left
    refine ⟨rfl, fun hin => ?_⟩
    have := List.dropWhile_eq_nil_iff.mp hd questionMark hin
    simp at this
  | cons c rest =>
    right
    have hnot := List.head?_dropWhile_not (fun c => decide (c ≠ questionMark)) text
    rw [hd] at hnot
    obtain rfl : c = questionMark := by simpa using hnot
    exact ⟨rest, rfl, (List.dropWhile_sublist _).mem (by rw [hd]; simp)⟩

theorem as_str_head (query : Query) : as_str query = [] ∨ (as_str query).head? = some questionMark := by
  unfold as_str
  split
  · exact .inl rfl
  · exact .inr rfl

theorem urlPath_question (url : Bytes) : questionMark ∉ urlPath url := by
  unfold urlPath
  split
  · decide
  · intro hin
    have := List.mem_takeWhile_imp hin
    simp at this

/-- The target is the path with both queries behind it. -/
theorem target_eq (request : RequestLine) : target request = urlPath request.resource_ ++
    ((urlPage request.resource_).dropWhile (· ≠ questionMark) ++ as_str request.query_) := by
  have hsplit := List.takeWhile_append_dropWhile (p := fun c => decide (c ≠ questionMark))
    (l := urlPage request.resource_)
  change (if (urlPage request.resource_).head? ≠ some slash then [slash] else []) ++
    urlPage request.resource_ ++ as_str request.query_ = _
  unfold urlPath
  rw [← List.append_assoc]
  congr 1
  rcases splitUrl_page request.resource_ false with hnil | hquestion | hslash
  · have hpage : urlPage request.resource_ = [] := hnil
    simp [hpage]
  · have hpage : (urlPage request.resource_).head? = some questionMark := hquestion
    cases htext : urlPage request.resource_ with
    | nil => simp [htext] at hpage
    | cons c page =>
      obtain rfl : c = questionMark := by simpa [htext] using hpage
      simp [show questionMark ≠ slash by decide]
  · have hpage : (urlPage request.resource_).head? = some slash := hslash
    rw [if_neg (not_not.mpr hpage), List.nil_append]
    cases htext : urlPage request.resource_ with
    | nil => simp [htext] at hpage
    | cons c page =>
      obtain rfl : c = slash := by simpa [htext] using hpage
      have htake : (slash :: page).takeWhile (· ≠ questionMark) ≠ [] := by
        rw [List.takeWhile_cons, if_pos (by decide)]
        simp
      rw [if_neg htake, List.takeWhile_append_dropWhile]

/-- The queries of the target: that of the URL, and the one that `as_str` makes. -/
theorem target_queries (request : RequestLine) :
    targetResource (target request) = urlPath request.resource_ ∧
      (questionMark ∉ urlPage request.resource_ ∧ urlQuery request.resource_ = [] ∧
        targetQuery (target request) = (as_str request.query_).drop 1 ∨
      questionMark ∈ urlPage request.resource_ ∧
        targetQuery (target request) = urlQuery request.resource_ ++ as_str request.query_) := by
  have hstr := as_str_head request.query_
  rcases dropWhile_question (urlPage request.resource_) with ⟨hnil, hnot⟩ | ⟨rest, hcons, hin⟩
  · have hback : (urlPage request.resource_).dropWhile (· ≠ questionMark) ++ as_str request.query_ =
        as_str request.query_ := by rw [hnil, List.nil_append]
    obtain ⟨hres, hdrop⟩ := takeWhile_question (urlPath_question request.resource_) hstr
    rw [target_eq, hback]
    refine ⟨hres, .inl ⟨hnot, by rw [urlQuery, hnil]; rfl, ?_⟩⟩
    rw [targetQuery, hdrop]
  · have hhead : ((urlPage request.resource_).dropWhile (· ≠ questionMark) ++
        as_str request.query_).head? = some questionMark := by
      rw [hcons]
      rfl
    obtain ⟨hres, hdrop⟩ := takeWhile_question (urlPath_question request.resource_) (.inr hhead)
    rw [target_eq]
    refine ⟨hres, .inr ⟨hin, ?_⟩⟩
    rw [targetQuery, hdrop, urlQuery, hcons]
    rfl

/-! ## The added parameters -/

/-- `name=value`. -/
def paramText (e : Bytes × Bytes) : Bytes := e.1 ++ Cookie.equals :: e.2

theorem as_str_cons (e : Bytes × Bytes) (query : Query) :
    as_str (e :: query) = questionMark ::
      (paramText e ++ query.flatMap fun e => ampersand :: paramText e) := by
  simp [as_str, paramText, lit, ampersand, Cookie.equals]

/-- **The pieces that `as_str` makes.** -/
theorem pieces_as_str : ∀ {query : Query}, (∀ e ∈ query, ampersand ∉ e.1 ∧ ampersand ∉ e.2) →
    pieces ((as_str query).drop 1) = query.map paramText
  | [], _ => rfl
  | [e], h => by
    have he : ampersand ∉ paramText e := by
      obtain ⟨h₁, h₂⟩ := h e List.mem_cons_self
      simp [paramText, h₁, h₂, show ampersand ≠ Cookie.equals by decide]
    rw [as_str_cons, List.drop_succ_cons, List.drop_zero, List.flatMap_nil, List.append_nil,
      pieces_single he (by simp [paramText])]
    rfl
  | e :: e' :: query, h => by
    have he : ampersand ∉ paramText e := by
      obtain ⟨h₁, h₂⟩ := h e List.mem_cons_self
      simp [paramText, h₁, h₂, show ampersand ≠ Cookie.equals by decide]
    have ih := pieces_as_str fun x (hx : x ∈ e' :: query) => h x (List.mem_cons_of_mem e hx)
    rw [as_str_cons, List.drop_succ_cons, List.drop_zero] at ih ⊢
    rw [List.flatMap_cons, List.cons_append, pieces_separated he, ih]
    rfl

theorem param_as_str {query : Query} (h : ∀ e ∈ query, Cookie.equals ∉ e.1) :
    (query.map paramText).map param = query := by
  rw [List.map_map]
  calc query.map (param ∘ paramText)
      = query.map id := List.map_congr_left fun e he => param_pair (h e he)
    _ = query := List.map_id query

theorem as_str_space {query : Query} (h : ∀ e ∈ query, SP ∉ e.1 ∧ SP ∉ e.2) : SP ∉ as_str query := by
  cases query with
  | nil => simp [as_str]
  | cons e query =>
    have hpair : ∀ e' ∈ e :: query, SP ∉ paramText e' := fun e' he' => by
      obtain ⟨h₁, h₂⟩ := h e' he'
      simp [paramText, h₁, h₂, show SP ≠ Cookie.equals by decide]
    rw [as_str_cons, List.mem_cons, List.mem_append, not_or, not_or]
    refine ⟨by decide, hpair e List.mem_cons_self, fun hin => ?_⟩
    obtain ⟨e', he', hmem⟩ := List.mem_flatMap.mp hin
    rcases List.mem_cons.mp hmem with hsp | hmem
    · exact absurd hsp (by decide)
    · exact hpair e' (List.mem_cons_of_mem e he') hmem

/-! ## The request line -/

section Line

variable {H : Type} {request : RequestLine} {xs : Bytes}

/-- The request line, as far as the version. -/
def requestLineText (request : RequestLine) (xs : Bytes) : Bytes :=
  Header.methodString request.method_ ++ SP :: (target request ++ SP :: xs)

/-- The step reads up to the first space in the target. -/
theorem apply_cut (request : RequestLine) (xs : Bytes) : ∃ front : Bytes, SP ∉ front ∧
    (RequestLineStep.apply (Request.new : Request H) (requestLineText request xs)).state.own =
      (targetRead request.method_ front (Request.new : Request H)).own ∧
    (SP ∉ target request → front = target request) := by
  obtain ⟨hspace, hlookup⟩ := methodString_read request.method_
  have hread : ∀ (front back : Bytes), SP ∉ front →
      (RequestLineStep.apply (Request.new : Request H)
        (Header.methodString request.method_ ++ SP :: (front ++ SP :: back))).state.own =
          (targetRead request.method_ front (Request.new : Request H)).own := by
    intro front back hfront
    rw [RequestLineStep.apply_target hspace hlookup hfront, Resumable.revert_state,
      RequestLineStep.version_own]
  by_cases hin : SP ∈ target request
  · obtain ⟨front, back, heq, hfront⟩ := List.eq_append_cons_of_mem hin
    refine ⟨front, hfront, ?_, fun hnot => absurd hin hnot⟩
    have htext : requestLineText request xs = Header.methodString request.method_ ++
        SP :: (front ++ SP :: (back ++ SP :: xs)) := by
      rw [requestLineText, heq]
      simp
    rw [htext]
    exact hread front _ hfront
  · exact ⟨target request, hin, hread _ _ hin, fun _ => rfl⟩

/-- The parameters that are read have no separators. -/
theorem read_separators {front : Bytes} (hfront : SP ∉ front) {e : Bytes × Bytes}
    (he : e ∈ (targetRead request.method_ front (Request.new : Request H)).own.query_) :
    (Cookie.equals ∉ e.1 ∧ ampersand ∉ e.1 ∧ ampersand ∉ e.2) ∧ SP ∉ e.1 ∧ SP ∉ e.2 := by
  have hparam : e ∈ (pieces (targetQuery front)).map param := by
    rcases mem_applyAll_insertNew he with h | h
    · exact nomatch h
    · exact h
  have hquery : (targetQuery front).count SP = 0 := List.count_eq_zero.mpr fun hin =>
    hfront ((List.dropWhile_sublist _).mem ((List.drop_sublist _ _).mem hin))
  have hzero := paramsCount_param (x := SP) (by decide) (by decide) (targetQuery front)
  rw [hquery] at hzero
  exact ⟨param_separators hparam, paramsCount_eq_zero.mp hzero e hparam⟩

/-- A target without a space, from its parts. -/
theorem target_space (hpath : SP ∉ urlPath request.resource_)
    (hquery : SP ∉ urlQuery request.resource_)
    (hadded : ∀ e ∈ request.query_, SP ∉ e.1 ∧ SP ∉ e.2) : SP ∉ target request := by
  rw [target_eq, List.mem_append, List.mem_append, not_or, not_or]
  refine ⟨hpath, ?_, as_str_space hadded⟩
  rcases dropWhile_question (urlPage request.resource_) with ⟨hnil, -⟩ | ⟨rest, hcons, -⟩
  · rw [hnil]
    simp
  · rw [urlQuery, hcons, List.drop_succ_cons, List.drop_zero] at hquery
    rw [hcons, List.mem_cons, not_or]
    exact ⟨by decide, hquery⟩

/-- **A second `?` is part of a parameter.**  The pieces of both queries together are fewer than
those of each, or one of them has the `?` in its text. -/
theorem one_query (hnames : ∀ e ∈ request.query_, Cookie.equals ∉ e.1 ∧ ampersand ∉ e.1 ∧ ampersand ∉ e.2)
    (hperm : (applyAll (fun e l => insertNew e.1 e.2 l)
      ((pieces (urlQuery request.resource_ ++ as_str request.query_)).map param) []).Perm
        (urlParams request.resource_ ++ request.query_)) : request.query_ = [] := by
  cases hquery : request.query_ with
  | nil => rfl
  | cons e query =>
    exfalso
    rw [hquery] at hperm hnames
    have hstr := as_str_cons e query
    have hpieces := pieces_as_str fun x (hx : x ∈ e :: query) =>
      ⟨(hnames x hx).2.1, (hnames x hx).2.2⟩
    have hadded := param_as_str fun x (hx : x ∈ e :: query) => (hnames x hx).1
    generalize htail : (paramText e ++ query.flatMap fun e => ampersand :: paramText e) = tail at hstr
    rw [hstr, List.drop_succ_cons, List.drop_zero] at hpieces
    have hne : pieces tail ≠ [] := by
      rw [hpieces]
      simp
    have hlength : (pieces (urlQuery request.resource_ ++ as_str (e :: query))).length ≤
        (urlParams request.resource_).length + (e :: query).length := by
      have hle := pieces_length_append (urlQuery request.resource_) (as_str (e :: query))
      rw [hstr, pieces_cons_length (by decide) hne, hpieces, List.length_map] at hle
      rw [hstr, urlParams, List.length_map]
      exact hle
    rcases applyAll_insertNew_eq_or_lt
      ((pieces (urlQuery request.resource_ ++ as_str (e :: query))).map param) [] with heq | hlt
    · -- all parameters are there, so that the `?` is in one of them
      rw [heq, List.nil_append] at hperm
      have hcount := paramsCount_perm (x := questionMark) hperm
      have htext := paramsCount_param (x := questionMark) (by decide) (by decide) tail
      rw [hpieces, hadded] at htext
      rw [paramsCount_param (by decide) (by decide), paramsCount_append, urlParams,
        paramsCount_param (by decide) (by decide), hstr, List.count_append, List.count_cons_self,
        htext] at hcount
      omega
    · have hsame := hperm.length_eq
      rw [List.length_append] at hsame
      rw [List.length_map, List.length_nil, Nat.zero_add] at hlt
      omega

/-- **The request line comes back** if and only if its parts keep clear of the separators, and
only one of the URL and the builder has parameters. -/
theorem requestLine_iff (xs : Bytes) (hnodup : (request.query_.map Prod.fst).Nodup) :
    ((RequestLineStep.apply (Request.new : Request H) (requestLineText request xs)).state.own.resource_ =
        urlPath request.resource_ ∧
      ((RequestLineStep.apply (Request.new : Request H) (requestLineText request xs)).state.own.query_).Perm
        (urlParams request.resource_ ++ request.query_)) ↔ LineSurvives request := by
  obtain ⟨front, hfront, hown, hwhole⟩ := apply_cut (H := H) request xs
  obtain ⟨hres, hqueries⟩ := target_queries request
  rw [hown]
  constructor
  · rintro ⟨hresource, hperm⟩
    have hread : ∀ e ∈ urlParams request.resource_ ++ request.query_,
        (Cookie.equals ∉ e.1 ∧ ampersand ∉ e.1 ∧ ampersand ∉ e.2) ∧ SP ∉ e.1 ∧ SP ∉ e.2 :=
      fun e he => read_separators hfront (hperm.mem_iff.mpr he)
    have hpath : SP ∉ urlPath request.resource_ := by
      rw [← hresource]
      exact fun hin => hfront ((List.takeWhile_sublist _).mem hin)
    have hquery : SP ∉ urlQuery request.resource_ := by
      have hzero : paramsCount SP (urlParams request.resource_) = 0 :=
        paramsCount_eq_zero.mpr fun e he => (hread e (List.mem_append_left _ he)).2
      rw [urlParams, paramsCount_param (by decide) (by decide)] at hzero
      exact List.count_eq_zero.mp hzero
    have hadded : ∀ e ∈ request.query_, _ := fun e he => hread e (List.mem_append_right _ he)
    obtain rfl := hwhole (target_space hpath hquery fun e he => (hadded e he).2)
    have hkeys := ((hperm.map Prod.fst).nodup_iff).mp (applyAll_insertNew_nodup _ List.nodup_nil)
    rw [List.map_append] at hkeys
    refine
      { path := hpath
        query := hquery
        keys := (List.nodup_append.mp hkeys).1
        one := ?_
        names := fun e he => ⟨(hadded e he).1.1, (hadded e he).1.2.1, (hadded e he).2.1⟩
        values := fun e he => ⟨(hadded e he).1.2.2, (hadded e he).2.2⟩ }
    rcases hqueries with ⟨hnot, -⟩ | ⟨-, htext⟩
    · exact .inl hnot
    · refine .inr (one_query (fun e he => (hadded e he).1) ?_)
      rw [← htext]
      exact hperm
  · intro h
    obtain rfl := hwhole (target_space h.path h.query
      fun e he => ⟨(h.names e he).2.2, (h.values e he).2⟩)
    refine ⟨hres, ?_⟩
    have hadded : (pieces ((as_str request.query_).drop 1)).map param = request.query_ := by
      rw [pieces_as_str fun e he => ⟨(h.names e he).2.1, (h.values e he).1⟩,
        param_as_str fun e he => (h.names e he).1]
    have hall : (pieces (targetQuery (target request))).map param =
        urlParams request.resource_ ++ request.query_ := by
      rcases hqueries with ⟨-, hnil, htext⟩ | ⟨hin, htext⟩
      · rw [htext, hadded, urlParams, hnil]
        rfl
      · have hnone := h.one.resolve_left (not_not.mpr hin)
        rw [htext, hnone, urlParams]
        simp [as_str]
    have hkeys : (([] ++ (urlParams request.resource_ ++ request.query_)).map Prod.fst).Nodup := by
      rcases h.one with hnot | hnone
      · have hnil : urlParams request.resource_ = [] := by
          rcases hqueries with ⟨-, hnil, -⟩ | ⟨hin, -⟩
          · rw [urlParams, hnil]
            rfl
          · exact absurd hin hnot
        simpa [hnil] using hnodup
      · simpa [hnone] using h.keys
    change (applyAll (fun e l => insertNew e.1 e.2 l)
      ((pieces (targetQuery (target request))).map param) []).Perm _
    rw [hall, applyAll_insertNew_of_nodup hkeys]
    exact List.Perm.refl _

/-- The step goes on to the headers. -/
theorem requestLine_next (h : LineSurvives request) (behind : Bytes) :
    RequestLineStep.apply (Request.new : Request H)
        (requestLineText request (lit "HTTP/1.1" ++ CR :: LF :: behind)) =
      ⟨.Next, { targetRead request.method_ (target request) (Request.new : Request H) with
        version_ := .Http11 }, behind⟩ := by
  obtain ⟨hspace, hlookup⟩ := methodString_read request.method_
  have htarget := target_space h.path h.query fun e he => ⟨(h.names e he).2.2, (h.values e he).2⟩
  rw [requestLineText, RequestLineStep.apply_target hspace hlookup htarget,
    RequestLineStep.version_http11]
  rfl

end Line

/-! ## A query that has been read -/

section Reread

variable {H : Type}

/-- A query as the loop of the step leaves it: one value of each key, and no separators. -/
structure Separated (query : Query) : Prop where
  keys : (query.map Prod.fst).Nodup
  names : ∀ e ∈ query, Cookie.equals ∉ e.1 ∧ ampersand ∉ e.1 ∧ SP ∉ e.1
  values : ∀ e ∈ query, ampersand ∉ e.2 ∧ SP ∉ e.2

theorem Separated.nil : Separated [] := ⟨List.nodup_nil, by simp, by simp⟩

theorem Separated.perm {query query' : Query} (h : Separated query) (hperm : query'.Perm query) :
    Separated query' where
  keys := ((hperm.map Prod.fst).nodup_iff).mpr h.keys
  names e he := h.names e (hperm.mem_iff.mp he)
  values e he := h.values e (hperm.mem_iff.mp he)

theorem Separated.add {query : Query} (h : Separated query) {name value : Bytes}
    (hname : ∀ c ∈ name, c ∉ [Cookie.equals, SP, ampersand])
    (hvalue : ∀ c ∈ value, c ∉ [SP, ampersand]) : Separated (query.add name value) := by
  have hfree : ∀ {chars : List UInt8} {text : Bytes}, (∀ c ∈ text, c ∉ chars) →
      ∀ x ∈ chars, x ∉ text := fun hall x hx hin => hall x hin hx
  have hcases : ∀ e ∈ query.add name value, e ∈ query ∨ e = (name, value) := by
    intro e he
    have hin : e ∈ query ∨ e ∈ [(name, value)] :=
      mem_applyAll_insertNew (show e ∈ applyAll _ [(name, value)] query from he)
    exact hin.imp_right List.mem_singleton.mp
  constructor
  · exact insertNew_nodup h.keys
  · intro e he
    rcases hcases e he with hold | rfl
    · exact h.names e hold
    · exact ⟨hfree hname _ (by simp), hfree hname _ (by simp), hfree hname _ (by simp)⟩
  · intro e he
    rcases hcases e he with hold | rfl
    · exact h.values e hold
    · exact ⟨hfree hvalue _ (by simp), hfree hvalue _ (by simp)⟩

/-- **One iteration of the query loop** leaves the query as it is, or adds a parameter. -/
theorem queryBody_separated {request : Request H} (xs : Bytes) (h : Separated request.own.query_) :
    (∀ o, RequestLineStep.queryBody request xs = .inl o → Separated o.state.own.query_) ∧
      ∀ request' xs', RequestLineStep.queryBody request xs = .inr (request', xs') →
        Separated request'.own.query_ := by
  have hnone : ∀ c ∈ ([] : Bytes), c ∉ [SP, ampersand] := by simp
  unfold RequestLineStep.queryBody
  by_cases hend : current xs = SP
  · -- the space behind the query
    rw [if_pos hend]
    exact ⟨fun o heq => Sum.inl.inj heq ▸ h, fun request' xs' heq => nomatch heq⟩
  · rw [if_neg hend]
    cases hkey : match_until [Cookie.equals, SP, ampersand] xs with
    | none => exact ⟨fun o heq => Sum.inl.inj heq ▸ h, fun request' xs' heq => nomatch heq⟩
    | some m =>
      obtain ⟨key, rest⟩ := m
      have hname := match_until_clean hkey
      dsimp only
      split
      · refine ⟨fun o heq => (nomatch heq), fun request' xs' heq => ?_⟩
        cases heq
        exact h.add hname hnone
      · split
        · refine ⟨fun o heq => (nomatch heq), fun request' xs' heq => ?_⟩
          cases heq
          exact h.add hname hnone
        · cases hval : match_until [SP, ampersand] (rest.drop 1) with
          | none => exact ⟨fun o heq => Sum.inl.inj heq ▸ h, fun request' xs' heq => nomatch heq⟩
          | some m =>
            obtain ⟨value, rest'⟩ := m
            have hvalue := match_until_clean hval
            dsimp only
            split
            · refine ⟨fun o heq => (nomatch heq), fun request' xs' heq => ?_⟩
              cases heq
              exact h.add hname hvalue
            · refine ⟨fun o heq => (nomatch heq), fun request' xs' heq => ?_⟩
              cases heq
              exact h.add hname hvalue

theorem query_separated {request : Request H} (xs : Bytes) (h : Separated request.own.query_) :
    Separated (RequestLineStep.query request xs).state.own.query_ := by
  refine Loop.run_induction RequestLineStep.queryBody_shrinks _ (fun request _ => Separated request.own.query_)
    (fun o => Separated o.state.own.query_) ?_ ?_ request xs h
  · intro request xs o hinv heq
    exact (queryBody_separated xs hinv).1 o heq
  · intro request xs request' xs' hinv heq
    exact (queryBody_separated xs hinv).2 request' xs' heq

/-- Of the parts of the step the loop alone touches the query. -/
theorem apply_separated {request : Request H} (xs : Bytes) (h : Separated request.own.query_) :
    Separated (RequestLineStep.apply request xs).state.own.query_ := by
  have hmethod : ∀ request xs, (RequestLineStep.method (H := H) request xs).state.own.query_ =
      request.own.query_ := by
    intro request xs
    unfold RequestLineStep.method
    repeat' split
    all_goals rfl
  have hresource : ∀ request xs, (RequestLineStep.resource (H := H) request xs).state.own.query_ =
      request.own.query_ := by
    intro request xs
    unfold RequestLineStep.resource
    split
    · rfl
    · rfl
  -- a part that runs behind another finds what that one has left
  have hthen : ∀ {f g : Step (Request H)},
      (∀ request xs, Separated request.own.query_ → Separated (f request xs).state.own.query_) →
      (∀ request xs, Separated request.own.query_ → Separated (g request xs).state.own.query_) →
      ∀ request xs, Separated request.own.query_ →
        Separated (Resumable.andThen State.Next f g request xs).state.own.query_ := by
    intro f g hf hg request xs hq
    unfold Resumable.andThen
    dsimp only
    split
    · exact hg _ _ (hf request xs hq)
    · exact hf request xs hq
  rw [RequestLineStep.apply, Resumable.revert_state]
  refine hthen (hthen (hthen ?_ ?_) ?_) ?_ request xs h
  · intro request xs hq
    rw [hmethod]
    exact hq
  · intro request xs hq
    rw [hresource]
    exact hq
  · intro request xs hq
    exact query_separated xs hq
  · intro request xs hq
    rw [RequestLineStep.version_own]
    exact hq

/-- The message behind a run of the step: what is in the buffer at each try, as far as it has
come in. -/
def readLine (tries : List Bytes) : Request H :=
  tries.foldl (fun request xs => (RequestLineStep.apply request xs).state) Request.new

theorem readLine_separated (tries : List Bytes) :
    Separated (readLine tries : Request H).own.query_ := by
  have hrun : ∀ (tries : List Bytes) (request : Request H), Separated request.own.query_ →
      Separated (tries.foldl (fun request xs => (RequestLineStep.apply request xs).state)
        request).own.query_ := by
    intro tries
    induction tries with
    | nil => exact fun request h => h
    | cons xs tries ih => exact fun request h => ih _ (apply_separated xs h)
  exact hrun tries Request.new Separated.nil

theorem reread_separated {query : Query} (h : Separated query) (xs : Bytes) :
    RequestLineStep.query (Request.new : Request H) ((as_str query).drop 1 ++ SP :: xs) =
      ⟨.Next, RequestLineStep.addParams query Request.new, SP :: xs⟩ := by
  have hspace : SP ∉ (as_str query).drop 1 := fun hin =>
    as_str_space (fun e he => ⟨(h.names e he).2.2, (h.values e he).2⟩) ((List.drop_sublist _ _).mem hin)
  rw [RequestLineStep.query_read hspace, pieces_as_str fun e he => ⟨(h.names e he).2.1, (h.values e he).1⟩,
    param_as_str fun e he => (h.names e he).1]

/-- **A query that has been read comes back.**  Whatever the step has been run on, and in
whatever order the map has its parameters, the loop reads the text that `as_str` makes of them
to its end, and comes to the same parameters. -/
theorem query_reread (tries : List Bytes) {query : Query}
    (horder : query.Perm (readLine tries : Request H).own.query_) (xs : Bytes) :
    let o := RequestLineStep.query (Request.new : Request H) ((as_str query).drop 1 ++ SP :: xs)
    o.result = .Next ∧ o.rest = SP :: xs ∧
      o.state.own.query_.Perm (readLine tries : Request H).own.query_ := by
  have hsep : Separated query := (readLine_separated tries).perm horder
  have hsame : applyAll (fun e l => insertNew e.1 e.2 l) query [] = query := by
    have hkeys : (([] ++ query).map Prod.fst).Nodup := hsep.keys
    rw [applyAll_insertNew_of_nodup hkeys, List.nil_append]
  rw [reread_separated hsep]
  refine ⟨rfl, rfl, ?_⟩
  change (applyAll (fun e l => insertNew e.1 e.2 l) query []).Perm _
  rw [hsame]
  exact horder

/-- A key without `=`, an empty key, a second value of a key, and a `?` and an `=` in a value. -/
theorem query_reread_mixed :
    (readLine [lit "GET /r?a&=v&b=?=1&b=2 HTTP/1.1\r\n"] : Request Unit).own.query_ =
        [(lit "a", []), ([], lit "v"), (lit "b", lit "?=1")] ∧
      (RequestLineStep.query (Request.new : Request Unit)
        ((as_str [(lit "b", lit "?=1"), (lit "a", []), ([], lit "v")]).drop 1 ++ lit " HTTP/1.1")).state.own.query_.Perm
          (readLine [lit "GET /r?a&=v&b=?=1&b=2 HTTP/1.1\r\n"] : Request Unit).own.query_ := by
  have hread : (readLine [lit "GET /r?a&=v&b=?=1&b=2 HTTP/1.1\r\n"] : Request Unit).own.query_ =
      [(lit "a", []), ([], lit "v"), (lit "b", lit "?=1")] := by decide
  have horder : ([(lit "b", lit "?=1"), (lit "a", []), ([], lit "v")] : Query).Perm
      (readLine [lit "GET /r?a&=v&b=?=1&b=2 HTTP/1.1\r\n"] : Request Unit).own.query_ := by
    rw [hread]
    decide
  exact ⟨hread, (query_reread _ horder (lit "HTTP/1.1")).2.2⟩

end Reread

end Pistache.Client
