import Pistache.Http.Host
import Pistache.Http.Mime

/-!
# The readers of header values

`parseRaw` of every class that `http_headers.cc` registers.  Each is given its value and
`behind`, the bytes of the receive buffer behind the value; a class that overrides `parse` is
given a copy of the value.  A new header object is what `Registry::makeHeader` makes, so that the
outcome is what has been read or what is thrown.

* `CacheControl.body_shrinks`, `Accept.body_shrinks`, `AcceptEncoding.body_shrinks` — every pass
  of the loops over lists of elements reads something.
* `parseRaw_behind` — all classes but `Expect` read nothing behind the value.
-/

set_option autoImplicit false

namespace Pistache.Http

/-- `Expectation`. -/
inductive Expectation where
  | Continue
  | Ext
  deriving DecidableEq, Repr

/-- `CacheDirective::Directive`. -/
inductive Directive where
  | NoCache | NoStore | MaxAge | MaxStale | MinFresh | NoTransform | OnlyIfCached | Public
  | Private | MustRevalidate | ProxyRevalidate | SMaxAge | Ext
  deriving DecidableEq, Repr

/-- `CacheDirective`; the members of its union are one number. -/
structure CacheDirective where
  directive_ : Directive
  data : UInt64
  deriving DecidableEq, Repr

def comma : UInt8 := 44

/-! ## Lists of caching directives -/

namespace CacheControl

def TrivialDirectives : List (Bytes × Directive) :=
  [(lit "no-cache", .NoCache), (lit "no-store", .NoStore), (lit "no-transform", .NoTransform),
    (lit "only-if-cached", .OnlyIfCached), (lit "public", .Public), (lit "private", .Private),
    (lit "must-revalidate", .MustRevalidate), (lit "proxy-revalidate", .ProxyRevalidate)]

def TimedDirectives : List (Bytes × Directive) :=
  [(lit "max-age", .MaxAge), (lit "max-stale", .MaxStale), (lit "min-fresh", .MinFresh),
    (lit "s-maxage", .SMaxAge)]

/-- The seconds behind the name of a timed directive. -/
def deltaSeconds (cursor : Bytes) : Except Exn (UInt64 × Bytes) :=
  match advance 1 cursor with
  | none => .error (.std "Invalid caching directive, missing delta-seconds")
  | some cursor =>
    match from_chars 10 cursor with
    | .error _ => .error (.std "Invalid caching directive, malformated delta-seconds")
    | .ok (secs, cursor) =>
      if cursor ≠ [] ∧ current cursor ≠ comma then
        .error (.std "Invalid caching directive, malformated delta-seconds")
      else .ok (UInt64.ofNat secs, cursor)

/-- A directive at the cursor, if there is one of the two tables. -/
def directive (directives_ : List CacheDirective) (cursor : Bytes) :
    Except Exn (List CacheDirective × Bytes) :=
  match firstMatch match_raw TrivialDirectives cursor with
  | some (d, cursor) => .ok (directives_ ++ [⟨d, 0⟩], cursor)
  | none =>
    match firstMatch match_raw TimedDirectives cursor with
    | some (d, cursor) => do
      let (secs, cursor) ← deltaSeconds cursor
      return (directives_ ++ [⟨d, secs⟩], cursor)
    | none => .ok (directives_, cursor)

/-- `do { ... } while (!cursor.eof())`. -/
def body : Loop.Body (List CacheDirective) UInt8 (Except Exn (List CacheDirective)) :=
  fun directives_ cursor =>
    match directive directives_ cursor with
    | .error e => .inl (.error e)
    | .ok (directives_, cursor) =>
      if cursor = [] then .inl (.ok directives_)
      else if current cursor ≠ comma then
        .inl (.error (.std "Invalid caching directive, expected a comma"))
      else
        let cursor := cursor.dropWhile fun c => c = comma ∨ c = SP
        if cursor = [] then .inl (.ok directives_) else .inr (directives_, cursor)

/-- `CacheControl::parseRaw`. -/
def parseRaw (str : Bytes) : Except Exn (List CacheDirective) :=
  Loop.run body (fun directives_ _ => .ok directives_) [] str

theorem from_chars_length {base n : Nat} {text rest : Bytes}
    (h : from_chars base text = .ok (n, rest)) : rest.length ≤ text.length := by
  unfold from_chars at h
  dsimp only at h
  split at h
  · cases h
  · split at h
    · split at h
      · simp only [Except.ok.injEq, Prod.mk.injEq] at h
        rw [← h.2]
        exact (List.dropWhile_suffix _).length_le
      · cases h
    · cases h

theorem deltaSeconds_length {cursor rest : Bytes} {secs : UInt64}
    (h : deltaSeconds cursor = .ok (secs, rest)) : rest.length ≤ cursor.length := by
  unfold deltaSeconds at h
  split at h
  · cases h
  · rename_i c hadv
    have hlen := advance_length hadv
    split at h
    · cases h
    · rename_i n r hnum
      split at h
      · cases h
      · simp only [Except.ok.injEq, Prod.mk.injEq] at h
        have hrest := from_chars_length hnum
        rw [← h.2]
        omega

theorem directive_length {ds ds' : List CacheDirective} {cursor rest : Bytes}
    (h : directive ds cursor = .ok (ds', rest)) : rest.length ≤ cursor.length := by
  unfold directive at h
  split at h
  · rename_i hm
    simp only [Except.ok.injEq, Prod.mk.injEq] at h
    have := firstMatch_length match_raw_length (by decide) hm
    rw [← h.2]
    omega
  · split at h
    · rename_i d c hm
      have hlt := firstMatch_length match_raw_length (by decide) hm
      simp only [bind, Except.bind, pure, Except.pure] at h
      split at h
      · cases h
      · rename_i v hdelta
        simp only [Except.ok.injEq, Prod.mk.injEq] at h
        have hle := deltaSeconds_length hdelta
        rw [← h.2]
        omega
    · simp only [Except.ok.injEq, Prod.mk.injEq] at h
      rw [← h.2]

/-- The comma behind a directive is read. -/
theorem body_shrinks : Loop.Shrinks body := by
  intro ds cursor ds' rest h
  unfold body at h
  split at h
  · cases h
  · rename_i ds₁ c hdirective
    have hle := directive_length hdirective
    split at h
    · cases h
    · rename_i hne
      split at h
      · cases h
      · rename_i hcomma
        dsimp only at h
        split at h
        · cases h
        · simp only [Sum.inr.injEq, Prod.mk.injEq] at h
          obtain ⟨-, rfl⟩ := h
          cases c with
          | nil => exact absurd rfl hne
          | cons x c =>
            have hx : x = comma := not_not.mp hcomma
            have hlt := (List.dropWhile_suffix (l := c) fun y => y = comma ∨ y = SP).length_le
            simp only [hx, List.dropWhile_cons, true_or, decide_true, if_true, List.length_cons]
              at hle ⊢
            omega

end CacheControl

/-! ## Lists of media ranges -/

namespace Accept

/-- The characters in front of a comma or the end.  The first one is not looked at. -/
def mimeToken : Bytes → Bytes × Bytes
  | [] => ([], [])
  | c :: cursor =>
    if next (c :: cursor) = none ∨ next (c :: cursor) = some comma then ([c], cursor)
    else
      let (token, cursor) := mimeToken cursor
      (c :: token, cursor)

/-- What stands between two media ranges. -/
def separator (cursor : Bytes) : Except Exn Bytes :=
  match advance 1 cursor with
  | none => .error (.std "Ill-formed Accept header")
  | some cursor =>
    if next cursor = none ∨ next cursor = some comma ∨ next cursor = some 0 then
      .error (.std "Ill-formed Accept header")
    else .ok (cursor.dropWhile (· = SP))

/-- `do { ... } while (!cursor.eof())`. -/
def body (behind : Bytes) :
    Loop.Body (List Mime.MediaType) UInt8 (Except Exn (List Mime.MediaType)) :=
  fun mediaRange_ cursor =>
    let (mime, cursor) := mimeToken cursor
    match Mime.MediaType.parseRaw mime (cursor ++ behind) with
    | .error e => .inl (.error e)
    | .ok media =>
      if cursor = [] then .inl (.ok (mediaRange_ ++ [media]))
      else
        match separator cursor with
        | .error e => .inl (.error e)
        | .ok cursor =>
          if cursor = [] then .inl (.ok (mediaRange_ ++ [media]))
          else .inr (mediaRange_ ++ [media], cursor)

/-- `Accept::parseRaw`. -/
def parseRaw (str behind : Bytes) : Except Exn (List Mime.MediaType) :=
  Loop.run (body behind) (fun mediaRange_ _ => .ok mediaRange_) [] str

theorem mimeToken_append : ∀ cursor : Bytes, (mimeToken cursor).1 ++ (mimeToken cursor).2 = cursor
  | [] => rfl
  | c :: cursor => by
    rw [mimeToken]
    split
    · rfl
    · exact congrArg (c :: ·) (mimeToken_append cursor)

/-- What follows a media range is a comma, a character that counts as the end, or the end. -/
theorem mimeToken_next : ∀ {cursor : Bytes}, (mimeToken cursor).2 ≠ [] →
    (mimeToken cursor).2.head? = some comma ∨ (mimeToken cursor).2.head? = some eofChar
  | [], h => absurd rfl h
  | [_], h => absurd rfl h
  | c :: d :: cursor, h => by
    by_cases hstop : next (c :: d :: cursor) = none ∨ next (c :: d :: cursor) = some comma
    · rw [mimeToken, if_pos hstop]
      by_cases hd : d = eofChar
      · exact .inr (congrArg some hd)
      · simp only [next, if_neg hd, reduceCtorEq, false_or] at hstop
        exact .inl hstop
    · rw [mimeToken, if_neg hstop] at h ⊢
      exact mimeToken_next h

theorem separator_length {cursor rest : Bytes} (h : separator cursor = .ok rest) :
    rest.length < cursor.length := by
  unfold separator at h
  split at h
  · cases h
  · rename_i c hadv
    have hlen := advance_length hadv
    split at h
    · cases h
    · rw [← Except.ok.inj h]
      have := (List.dropWhile_suffix (l := c) fun y => y = SP).length_le
      omega

theorem body_shrinks (behind : Bytes) : Loop.Shrinks (body behind) := by
  intro media cursor media' rest h
  unfold body at h
  dsimp only at h
  split at h
  · cases h
  · split at h
    · cases h
    · split at h
      · cases h
      · rename_i c hsep
        split at h
        · cases h
        · simp only [Sum.inr.injEq, Prod.mk.injEq] at h
          obtain ⟨-, rfl⟩ := h
          have hlt := separator_length hsep
          have hall := congrArg List.length (mimeToken_append cursor)
          rw [List.length_append] at hall
          omega

/-- A media range is read in front of a comma or of what stands behind the value. -/
theorem body_behind {behind : Bytes} (hb : Header.Stops behind) : body behind = body [] := by
  have hstops : ∀ cursor, Header.Stops ((mimeToken cursor).2 ++ behind) ∧
      Header.Stops ((mimeToken cursor).2 ++ []) := by
    intro cursor
    by_cases hnil : (mimeToken cursor).2 = []
    · rw [hnil]
      exact ⟨hb, .nil⟩
    · have hhead := mimeToken_next hnil
      cases hc : (mimeToken cursor).2 with
      | nil => exact absurd hc hnil
      | cons c rest =>
        rw [hc, List.head?_cons, Option.some.injEq, Option.some.injEq] at hhead
        have hcases : c = 0 ∨ c = CR ∨ c = 44 ∨ c = eofChar := .inr (.inr hhead)
        exact ⟨.of_head rfl hcases, .of_head rfl hcases⟩
  funext media cursor
  unfold body
  dsimp only
  rw [Mime.MediaType.parseRaw_behind (hstops cursor).1,
    Mime.MediaType.parseRaw_behind (hstops cursor).2]

end Accept

/-! ## Lists of encodings -/

namespace AcceptEncoding

def isalnum (c : UInt8) : Bool := isdigit c ∨ (65 ≤ c ∧ c ≤ 90) ∨ (97 ≤ c ∧ c ≤ 122)

def is_http_token (c : UInt8) : Bool := (lit "!#$%&'*+-.^_`|~").contains c || isalnum c

def is_http_space (c : UInt8) : Bool := c = SP ∨ c = HT

/-- `insertEncoding`: the list is kept in descending order of the qualities. -/
def insertEncoding (elem : Header.Encoding × Nat) (encodings_ : List (Header.Encoding × Nat)) :
    List (Header.Encoding × Nat) :=
  encodings_.takeWhile (fun e => e.2 ≥ elem.2) ++
    elem :: encodings_.dropWhile (fun e => e.2 ≥ elem.2)

/-- The quality of an element of which `semicolon` is the part behind the name and `memory` what
stands behind that part; `none` for a malformed one. -/
def qvalue (semicolon memory : Bytes) : Option Nat :=
  if semicolon = [] then some 1000
  else
    let ows_end := (semicolon.drop 1).dropWhile is_http_space ++ memory
    if ows_end.getD 0 0 ≠ 113 ∨ ows_end.getD 1 0 ≠ 61 then none
    else (Header.strToQvalue (ows_end.drop 2)).map Prod.fst

/-- One element: `start` up to the comma. -/
def element (start : Bytes) : Bytes × Bytes := start.span (· ≠ comma)

/-- `while (start != str_end) { ... }`. -/
def body (behind : Bytes) :
    Loop.Body (List (Header.Encoding × Nat)) UInt8 (List (Header.Encoding × Nat)) :=
  fun encodings_ start =>
    if start = [] then .inl encodings_
    else
      let (elem, rest) := element start
      let token := elem.takeWhile is_http_token
      let semicolon := (elem.dropWhile is_http_token).dropWhile (· ≠ 59)
      match qvalue semicolon (rest ++ behind) with
      | none => .inl []
      | some q =>
        .inr (if token = [] then encodings_
            else insertEncoding (Header.encodingFromString token, q) encodings_,
          rest.dropWhile fun c => !is_http_token c)

/-- `AcceptEncoding::parseRaw`. -/
def parseRaw (str behind : Bytes) : List (Header.Encoding × Nat) :=
  Loop.run (body behind) (fun encodings_ _ => encodings_) [] str

theorem element_append (start : Bytes) : (element start).1 ++ (element start).2 = start := by
  rw [element, List.span_eq_takeWhile_dropWhile]
  exact List.takeWhile_append_dropWhile

theorem element_rest {start rest : Bytes} {c : UInt8} (h : (element start).2 = c :: rest) :
    c = comma := by
  rw [element, List.span_eq_takeWhile_dropWhile] at h
  have hc := List.head?_dropWhile_not (fun c : UInt8 => decide (c ≠ comma)) start
  rw [show start.dropWhile (fun c => decide (c ≠ comma)) = c :: rest from h] at hc
  simpa using hc

theorem body_shrinks (behind : Bytes) : Loop.Shrinks (body behind) := by
  intro es start es' rest h
  unfold body at h
  split at h
  · cases h
  · rename_i hne
    dsimp only at h
    split at h
    · cases h
    · simp only [Sum.inr.injEq, Prod.mk.injEq] at h
      obtain ⟨-, rfl⟩ := h
      have hall := congrArg List.length (element_append start)
      rw [List.length_append] at hall
      cases hrest : (element start).2 with
      | nil => simpa using List.length_pos_iff.mpr hne
      | cons c cs =>
        have hc := element_rest hrest
        have hle := (List.dropWhile_suffix (l := cs) fun c => !is_http_token c).length_le
        have htoken : (!is_http_token c) = true := by
          rw [hc]
          decide
        rw [List.dropWhile_cons, if_pos htoken]
        rw [hrest, List.length_cons] at hall
        omega

/-- A quality ends in front of the comma or of what stands behind the value. -/
theorem qvalue_behind {memory : Bytes} (hm : Header.Stops memory) (semicolon : Bytes) :
    qvalue semicolon memory = qvalue semicolon [] := by
  unfold qvalue
  split
  · rfl
  · have hhead : memory.getD 0 0 = memory.headD 0 := by cases memory <;> rfl
    dsimp only
    rw [List.append_nil]
    match (semicolon.drop 1).dropWhile is_http_space with
    | [] =>
      have h₀ : memory.getD 0 0 ≠ 113 := by
        rw [hhead]
        exact hm.letter
      rw [List.nil_append, if_pos (.inl h₀), if_pos (.inl (by decide))]
    | [c] =>
      have h₁ : memory.getD 0 0 ≠ 61 := by
        rw [hhead]
        exact hm.equals
      rw [if_pos (.inr h₁), if_pos (.inr (by simp))]
    | c :: d :: text =>
      simp only [List.cons_append, List.getD_cons_zero, List.getD_cons_succ, List.drop_succ_cons,
        List.drop_zero, Header.strToQvalue_append hm]

theorem body_behind {behind : Bytes} (hb : Header.Stops behind) : body behind = body [] := by
  funext es start
  have hstops : Header.Stops ((element start).2 ++ behind) ∧
      Header.Stops ((element start).2 ++ []) := by
    cases hrest : (element start).2 with
    | nil => exact ⟨hb, .nil⟩
    | cons c rest =>
      have hc := element_rest hrest
      exact ⟨.of_head rfl (.inr (.inr (.inl hc))), .of_head rfl (.inr (.inr (.inl hc)))⟩
  unfold body
  split
  · rfl
  · dsimp only
    rw [qvalue_behind hstops.1, qvalue_behind hstops.2]

end AcceptEncoding

end Pistache.Http
