import Pistache.Client.RequestCookies
import Pistache.Client.RequestQuery
import Pistache.Http.WholeMessage

/-!
# Requests read back

What `RequestParser` makes of the bytes that a client has written.

Principal results:

* `RequestBuilder.roundtrip_iff` — a request comes back as it was built if and only if its request
  line, its cookies and each of its headers survive on their own, and no header of its own is in
  the way of the length of the body.
* `RequestBuilder.params_merge` — a parameter that is added to a URL with a query is lost.
-/

set_option autoImplicit false

namespace Pistache.Client

open Http Replay Resumable
open HeadersStep (Clean IsLine asRead typedEntry thrown update typed isCookieHeader)
open RequestLineStep (questionMark targetRead)

variable {X : Type} {inet6 : Inet6} {rest : Classes X} {custom : List Bytes}

namespace RequestBuilder

/-- The keys of the headers that `writeRequest` writes itself. -/
def ownKeys : List Bytes := [lit "user-agent", lit "host", lit "content-length"]

/-- The parser is done, with the whole message, and has the request: its method, the path of its
URL, the parameters of the URL and those that have been added, its headers besides those that the
client writes, its cookies and its body.  The lines of the head are those that have been
written. -/
structure ComesBack (b : RequestBuilder (classes inet6 rest custom)) (bytes : Bytes)
    (o : State × ParserBase (Header.Class (WithHost X)) RequestLine) : Prop where
  done : o.1 = .Done
  consumed : o.2.buffer.unread = []
  method : o.2.message.own.method_ = b.request_.own.method_
  resource : o.2.message.own.resource_ = urlPath b.request_.own.resource_
  query : (o.2.message.own.query_).Perm
    (urlParams b.request_.own.resource_ ++ b.request_.own.query_)
  headers : ∀ key, key ∉ ownKeys →
    o.2.message.headers_.headers.lookup key = b.request_.headers_.headers.lookup key
  lines : ∀ host, Host.parse inet6 (host_str b.request_.own.resource_) = .ok host →
    HeadersStep.lines (RequestLineStep.apply
      (Request.new : Request (Header.Class (WithHost X))) bytes).rest = (b.lines host).map asRead
  cookies : SameTable o.2.message.cookies_ b.request_.cookies_
  body : o.2.message.body_ = b.request_.body_

/-- The line of a header is taken by the parser, whatever it makes of the value. -/
def Taken (classes : Classes (Header.Class (WithHost X)))
    (header : TypedHeader (Header.Class (WithHost X))) : Prop :=
  Clean (header.line classes) ∧ thrown classes.registry (asRead (header.line classes)) = none

/-- Every part of the request survives on its own. -/
structure Survives (b : RequestBuilder (classes inet6 rest custom)) : Prop where
  line : LineSurvives b.request_.own
  cookies : CookiesSurvive (b.request_.cookies_.map Prod.snd)
  headers : ∀ e ∈ b.headers, e.1 ∉ ownKeys → (classes inet6 rest custom).Survives e.2
  hostHeader : ∀ e ∈ b.headers, e.1 = lit "host" → Taken (classes inet6 rest custom) e.2
  contentLength : ∀ e ∈ b.headers, e.1 = lit "content-length" →
    Clean (e.2.line (classes inet6 rest custom)) ∧
      typed (classes inet6 rest custom).registry (asRead (e.2.line (classes inet6 rest custom))).1
        (asRead (e.2.line (classes inet6 rest custom))).2 =
          some (.ok (.ContentLength (UInt64.ofNat b.request_.body_.length)))
  transferEncoding : b.request_.headers_.transferEncoding = none
  host : ∀ host, Host.parse inet6 (host_str b.request_.own.resource_) = .ok host →
    Taken (classes inet6 rest custom) (.other (.rest (.Host host)))

variable {b : RequestBuilder (classes inet6 rest custom)} {host : Host}
  {p : ParserBase (Header.Class (WithHost X)) RequestLine} {maxDataSize : Nat}

/-! ## The headers that are written -/

/-- The headers of the request and those of the client. -/
def written (b : RequestBuilder (classes inet6 rest custom)) (host : Host) :
    List (TypedHeader (Header.Class (WithHost X))) := b.headers.map Prod.snd ++ b.ownHeaders host

theorem mem_headers {e : Bytes × TypedHeader (Header.Class (WithHost X))} :
    e ∈ b.headers ↔ e ∈ b.request_.headers_.headers ∧ e.1 ≠ lit "user-agent" := by
  simp [headers]

theorem headers_nodup' : (b.headers.map Prod.fst).Nodup :=
  b.headers_nodup.sublist (List.filter_sublist.map Prod.fst)

theorem headers_key {e : Bytes × TypedHeader (Header.Class (WithHost X))} (he : e ∈ b.headers) :
    e.1 = (e.2.name (classes inet6 rest custom)).map tolower :=
  b.headers_named e (mem_headers.mp he).1

theorem mem_written {header : TypedHeader (Header.Class (WithHost X))} :
    header ∈ b.written host ↔ (∃ e ∈ b.headers, e.2 = header) ∨ header = userAgent ∨
      header = .other (.rest (.Host host)) ∨
      b.request_.body_ ≠ [] ∧ header = .ContentLength (UInt64.ofNat b.request_.body_.length) := by
  by_cases hbody : b.request_.body_ = []
  · simp [written, ownHeaders, hbody]
  · simp [written, ownHeaders, hbody]

theorem mem_lines {l : Bytes × Bytes} : l ∈ b.lines host ↔
    l = (lit "Cookie", cookieText (b.request_.cookies_.map Prod.snd)) ∨
      ∃ header ∈ b.written host, header.line (classes inet6 rest custom) = l := by
  rw [lines, List.mem_cons, List.mem_map]
  rfl

theorem own_key {header : TypedHeader (Header.Class (WithHost X))} (h : header ∈ b.ownHeaders host) :
    (header.name (classes inet6 rest custom)).map tolower ∈ ownKeys := by
  unfold ownHeaders at h
  by_cases hbody : b.request_.body_ = []
  · simp only [hbody, if_true, List.append_nil, List.mem_cons, List.not_mem_nil, or_false] at h
    rcases h with rfl | rfl
    · change (lit "User-Agent").map tolower ∈ ownKeys
      decide
    · change (lit "Host").map tolower ∈ ownKeys
      decide
  · simp only [hbody, if_false, List.mem_append, List.mem_cons, List.not_mem_nil, or_false] at h
    rcases h with (rfl | rfl) | rfl
    · change (lit "User-Agent").map tolower ∈ ownKeys
      decide
    · change (lit "Host").map tolower ∈ ownKeys
      decide
    · change (lit "Content-Length").map tolower ∈ ownKeys
      decide

theorem userAgent_survives : (classes inet6 rest custom).Survives userAgent :=
  (Header.text_survives_iff (fun name h => by cases h) UA).mpr (by decide)

/-- A name that is lowered to one of these keys is not that of cookies. -/
theorem ownKey_not_cookie {name : Bytes} (h : name.map tolower ∈ ownKeys) :
    isCookieHeader name = false := by
  have hne : name.map tolower ≠ lit "cookie" ∧ name.map tolower ≠ lit "set-cookie" := by
    simp only [ownKeys, List.mem_cons, List.not_mem_nil, or_false] at h
    rcases h with h | h | h
    all_goals
      rw [h]
      decide
  simp [isCookieHeader, LowercaseEqualStatic, hne.1, hne.2]

/-! ## The parse -/

/-- What the parser works on when the request line has been read. -/
def lineRead (b : RequestBuilder (classes inet6 rest custom)) :
    Request (Header.Class (WithHost X)) :=
  { targetRead b.request_.own.method_ (target b.request_.own) Request.new with version_ := .Http11 }

/-- What stands behind the request line. -/
def behind (b : RequestBuilder (classes inet6 rest custom)) (host : Host) : Bytes :=
  (b.lines host).flatMap HeadersStep.lineText ++ CR :: LF :: b.request_.body_

theorem wire_eq : b.wire host =
    requestLineText b.request_.own (lit "HTTP/1.1" ++ CR :: LF :: b.behind host) := rfl

/-- The headers of the message, as the parser takes them. -/
def head (b : RequestBuilder (classes inet6 rest custom)) (host : Host) :
    Out State (Request (Header.Class (WithHost X))) UInt8 :=
  HeadersStep.apply (classes inet6 rest custom).registry b.lineRead (b.behind host)

/-- The body of the message behind the head. -/
def bodyOut (b : RequestBuilder (classes inet6 rest custom)) (host : Host) :
    Out State (BodyStep × Message (Header.Class (WithHost X))) UInt8 :=
  BodyStep.apply ({}, (b.head host).state.toMessage) (b.head host).rest

theorem line_ne_done (xs : Bytes) : (RequestLineStep.apply
    (Request.new : Request (Header.Class (WithHost X)))
      (requestLineText b.request_.own xs)).result ≠ .Done := by
  rw [RequestLineStep.apply, revert_result]
  intro hdone
  have hmethod : ∀ (m : Request (Header.Class (WithHost X))) ys,
      (RequestLineStep.method m ys).result ≠ .Done := by
    intro m ys
    unfold RequestLineStep.method
    repeat' split
    all_goals simp
  have hresource : ∀ (m : Request (Header.Class (WithHost X))) ys,
      (RequestLineStep.resource m ys).result ≠ .Done := by
    intro m ys
    unfold RequestLineStep.resource
    repeat' split
    all_goals simp
  have hversion : ∀ (m : Request (Header.Class (WithHost X))) ys,
      (RequestLineStep.version m ys).result ≠ .Done := by
    intro m ys
    unfold RequestLineStep.version
    repeat' split
    all_goals simp
  have hquery : ∀ (m : Request (Header.Class (WithHost X))) ys,
      (RequestLineStep.query m ys).result ≠ .Done := by
    intro m ys
    refine Loop.run_induction RequestLineStep.queryBody_shrinks
      (fun request cursor => ⟨.Again, request, cursor⟩) (fun _ _ => True)
      (fun o => o.result ≠ .Done) ?_ (fun _ _ _ _ _ _ => trivial) m ys trivial
    intro m' zs o _ ho
    unfold RequestLineStep.queryBody at ho
    repeat' split at ho
    all_goals
      cases ho
      try simp
  have hthen : ∀ (f g : Step (Request (Header.Class (WithHost X)))),
      (∀ m ys, (f m ys).result ≠ .Done) → (∀ m ys, (g m ys).result ≠ .Done) →
        ∀ m ys, (andThen State.Next f g m ys).result ≠ .Done := by
    intro f g hf hg m ys
    unfold andThen
    dsimp only
    split
    · exact hg _ _
    · exact hf _ _
  exact hthen _ _ (hthen _ _ (hthen _ _ hmethod hresource) hquery) hversion _ _ hdone

/-- The parse, once the request line survives. -/
theorem parse_wire (hline : LineSurvives b.request_.own)
    (hfeed : (RequestParser.new maxDataSize : ParserBase _ RequestLine).feed (b.wire host) = some p) :
    RequestLineStep.apply (Request.new : Request (Header.Class (WithHost X))) (b.wire host) =
        ⟨.Next, b.lineRead, b.behind host⟩ ∧
    ((b.head host).result = .Next →
      (RequestParser.parse (classes inet6 rest custom).registry p).1 = (b.bodyOut host).result ∧
      (RequestParser.parse (classes inet6 rest custom).registry p).2.message =
        { (b.head host).state with toMessage := (b.bodyOut host).state.2 } ∧
      (RequestParser.parse (classes inet6 rest custom).registry p).2.buffer.unread =
        (b.bodyOut host).rest) := by
  have hread : RequestLineStep.apply (Request.new : Request (Header.Class (WithHost X)))
      (b.wire host) = ⟨.Next, b.lineRead, b.behind host⟩ := requestLine_next hline (b.behind host)
  obtain ⟨hwork, hstep, hunread⟩ := ParserBase.feed_new hfeed
  have hnext := (ParserBase.parse_message (classes inet6 rest custom).registry
    RequestLineStep.apply hwork hstep).2 (by rw [hunread, hread])
  rw [hunread, hread] at hnext
  exact ⟨hread, hnext.2⟩

/-! ## What the lines leave in the message -/

/-- The typed headers that the lines of the message add. -/
def entries (b : RequestBuilder (classes inet6 rest custom)) (host : Host) :
    List (Bytes × TypedHeader (Header.Class (WithHost X))) :=
  ((b.lines host).map asRead).filterMap (typedEntry (classes inet6 rest custom).registry)

/-- A header that is read comes from a header that is written. -/
theorem mem_entries {key : Bytes} {value : TypedHeader (Header.Class (WithHost X))} :
    (key, value) ∈ b.entries host ↔ ∃ header ∈ b.written host,
      (header.name (classes inet6 rest custom)).map tolower = key ∧
      typed (classes inet6 rest custom).registry
        (asRead (header.line (classes inet6 rest custom))).1
        (asRead (header.line (classes inet6 rest custom))).2 = some (.ok value) := by
  constructor
  · intro hin
    obtain ⟨l, hl, hentry⟩ := List.mem_filterMap.mp hin
    obtain ⟨l', hl', rfl⟩ := List.mem_map.mp hl
    obtain ⟨hkey, htyped⟩ := HeadersStep.typedEntry_some hentry
    rcases mem_lines.mp hl' with rfl | ⟨header, hheader, rfl⟩
    · cases htyped
    · exact ⟨header, hheader, hkey.symm, htyped⟩
  · rintro ⟨header, hheader, rfl, htyped⟩
    refine List.mem_filterMap.mpr ⟨_, List.mem_map_of_mem (mem_lines.mpr (.inr ⟨header, hheader, rfl⟩)), ?_⟩
    rw [HeadersStep.typedEntry_of_typed htyped]
    rfl

/-- Under any other key it comes from one of the request. -/
theorem mem_entries_other {key : Bytes} (hkey : key ∉ ownKeys)
    {value : TypedHeader (Header.Class (WithHost X))} :
    (key, value) ∈ b.entries host ↔ ∃ e ∈ b.headers, e.1 = key ∧
      typed (classes inet6 rest custom).registry
        (asRead (e.2.line (classes inet6 rest custom))).1
        (asRead (e.2.line (classes inet6 rest custom))).2 = some (.ok value) := by
  rw [mem_entries]
  constructor
  · rintro ⟨header, hheader, hname, htyped⟩
    rcases List.mem_append.mp hheader with hin | hown
    · obtain ⟨e, he, rfl⟩ := List.mem_map.mp hin
      exact ⟨e, he, (headers_key he).trans hname, htyped⟩
    · exact absurd (hname ▸ own_key hown) hkey
  · rintro ⟨e, he, hname, htyped⟩
    exact ⟨e.2, List.mem_append_left _ (List.mem_map_of_mem he), (headers_key he).symm.trans hname, htyped⟩

section Clean

variable (hclean : ∀ l ∈ b.lines host, Clean l)
  (hthrown : ∀ l ∈ b.lines host, thrown (classes inet6 rest custom).registry (asRead l) = none)

include hclean hthrown

theorem head_lines : b.head host = ⟨.Next, { b.lineRead with
    toMessage := applyAll (update (classes inet6 rest custom).registry) ((b.lines host).map asRead)
      b.lineRead.toMessage }, b.request_.body_⟩ :=
  HeadersStep.apply_lines b.lineRead hclean hthrown b.request_.body_

theorem head_headers (key : Bytes) :
    (b.head host).state.headers_.headers.lookup key = (b.entries host).lookup key := by
  rw [head_lines hclean hthrown]
  dsimp only
  rw [HeadersStep.applyAll_update_headers, lookup_applyAll_insertNew]
  rfl

/-- The jar, when no header stands under the name of cookies. -/
theorem head_cookies (hnot : ∀ header ∈ b.written host,
      isCookieHeader (header.name (classes inet6 rest custom)) = false) :
    (b.head host).state.cookies_ = (cookieRead b.request_.cookies_).1 := by
  have hrest : ∀ (hs : List (TypedHeader (Header.Class (WithHost X)))) (jar : CookieJar),
      (∀ header ∈ hs, isCookieHeader (header.name (classes inet6 rest custom)) = false) →
        ((hs.map (TypedHeader.line (classes inet6 rest custom))).map asRead).foldl
          (fun jar l => (HeadersStep.cookies (classes inet6 rest custom).registry l.1 l.2 jar).1)
          jar = jar := by
    intro hs jar hnot
    induction hs with
    | nil => rfl
    | cons header hs ih =>
      rw [List.map_cons, List.map_cons, List.foldl_cons]
      have hheader : isCookieHeader (asRead (header.line (classes inet6 rest custom))).1 = false :=
        hnot header List.mem_cons_self
      rw [HeadersStep.cookies_other hheader]
      exact ih fun x hx => hnot x (List.mem_cons_of_mem header hx)
  rw [head_lines hclean hthrown]
  dsimp only
  rw [HeadersStep.applyAll_update_cookies, lines, List.map_cons, List.foldl_cons]
  exact hrest _ _ hnot

end Clean

/-- What the parser throws at the line of the cookies. -/
theorem thrown_cookies (jar : CookieJar) : thrown (classes inet6 rest custom).registry
    (asRead (lit "Cookie", cookieText (jar.map Prod.snd))) = (cookieRead jar).2 := by
  have hcookies : HeadersStep.cookies (classes inet6 rest custom).registry (lit "Cookie")
      ((cookieText (jar.map Prod.snd)).dropWhile (· = SP)) [] = cookieRead jar := rfl
  unfold thrown
  simp only [asRead, hcookies]
  cases (cookieRead jar).2 with
  | none => rfl
  | some e => rfl

/-! ## What survives comes back -/

section Survives

variable (hs : b.Survives) (hhost : Host.parse inet6 (host_str b.request_.own.resource_) = .ok host)

include hs hhost

/-- The headers that are written are taken. -/
theorem Survives.taken : ∀ header ∈ b.written host, Taken (classes inet6 rest custom) header := by
  intro header hheader
  rcases mem_written.mp hheader with ⟨e, he, rfl⟩ | rfl | rfl | ⟨-, rfl⟩
  · by_cases hkey : e.1 ∈ ownKeys
    · simp only [ownKeys, List.mem_cons, List.not_mem_nil, or_false] at hkey
      rcases hkey with h | h | h
      · exact absurd h (mem_headers.mp he).2
      · exact hs.hostHeader e he h
      · exact ⟨(hs.contentLength e he h).1, HeadersStep.thrown_of_typed (hs.contentLength e he h).2⟩
    · exact ⟨(hs.headers e he hkey).clean, HeadersStep.thrown_of_typed (hs.headers e he hkey).read⟩
  · exact ⟨userAgent_survives.clean, HeadersStep.thrown_of_typed userAgent_survives.read⟩
  · exact hs.host host hhost
  · exact ⟨(Classes.contentLength_survives _).clean,
      HeadersStep.thrown_of_typed (Classes.contentLength_survives _).read⟩

theorem Survives.clean : ∀ l ∈ b.lines host, Clean l := by
  intro l hl
  rcases mem_lines.mp hl with rfl | ⟨header, hheader, rfl⟩
  · exact ⟨show HeadersStep.colon ∉ lit "Cookie" by decide, show eol (lit "Cookie") = false by decide,
      ((cookies_iff b.cookies_named b.cookies_nodup).mpr hs.cookies).1⟩
  · exact (hs.taken hhost header hheader).1

theorem Survives.thrown : ∀ l ∈ b.lines host,
    thrown (classes inet6 rest custom).registry (asRead l) = none := by
  intro l hl
  rcases mem_lines.mp hl with rfl | ⟨header, hheader, rfl⟩
  · rw [thrown_cookies]
    exact ((cookies_iff b.cookies_named b.cookies_nodup).mpr hs.cookies).2.1
  · exact (hs.taken hhost header hheader).2

omit hhost in
/-- Under the keys that are compared the headers are those of the request. -/
theorem Survives.headers_same {key : Bytes} (hkey : key ∉ ownKeys) :
    (b.entries host).lookup key = b.request_.headers_.headers.lookup key := by
  refine lookup_congr (fun value => ?_) b.headers_nodup
  rw [mem_entries_other hkey]
  have hagent : key ≠ lit "user-agent" := by
    rintro rfl
    exact hkey (by decide)
  constructor
  · rintro ⟨e, he, rfl, htyped⟩
    have hread := (hs.headers e he hkey).read
    rw [hread, Option.some.injEq, Except.ok.injEq] at htyped
    rw [← htyped]
    exact (mem_headers.mp he).1
  · intro hin
    have he : (key, value) ∈ b.headers := mem_headers.mpr ⟨hin, hagent⟩
    exact ⟨_, he, rfl, (hs.headers _ he hkey).read⟩

omit hhost in
/-- Every length that is read is that of the body. -/
theorem Survives.lengths {value : TypedHeader (Header.Class (WithHost X))}
    (h : (lit "content-length", value) ∈ b.entries host) :
    value = .ContentLength (UInt64.ofNat b.request_.body_.length) := by
  obtain ⟨header, hheader, hname, htyped⟩ := mem_entries.mp h
  rcases mem_written.mp hheader with ⟨e, he, rfl⟩ | rfl | rfl | ⟨-, rfl⟩
  · have hread := (hs.contentLength e he ((headers_key he).trans hname)).2
    rw [hread, Option.some.injEq, Except.ok.injEq] at htyped
    exact htyped.symm
  · exact absurd (show (lit "User-Agent").map tolower = lit "content-length" from hname) (by decide)
  · exact absurd (show (lit "Host").map tolower = lit "content-length" from hname) (by decide)
  · have hread : typed (classes inet6 rest custom).registry
        (asRead (TypedHeader.line (classes inet6 rest custom)
          (.ContentLength (UInt64.ofNat b.request_.body_.length)))).1
        (asRead (TypedHeader.line (classes inet6 rest custom)
          (.ContentLength (UInt64.ofNat b.request_.body_.length)))).2 =
          some (.ok (.ContentLength (UInt64.ofNat b.request_.body_.length))) :=
      (Classes.contentLength_survives _).read
    rw [hread, Option.some.injEq, Except.ok.injEq] at htyped
    exact htyped.symm

theorem Survives.bodyOut_eq : b.bodyOut host =
    ⟨.Done, ({}, (b.head host).state.toMessage.append b.request_.body_), []⟩ := by
  have hhead := head_lines (hs.clean hhost) (hs.thrown hhost)
  have hrest : (b.head host).rest = b.request_.body_ := by rw [hhead]
  have hencoding : (b.head host).state.headers_.transferEncoding = none := by
    have hkey := (head_headers (hs.clean hhost) (hs.thrown hhost) (lit "transfer-encoding")).trans
      (hs.headers_same (show lit "transfer-encoding" ∉ ownKeys by decide))
    have hnone := hs.transferEncoding
    unfold Header.Collection.transferEncoding at hnone ⊢
    rw [hkey]
    exact hnone
  have hlookup := head_headers (hs.clean hhost) (hs.thrown hhost) (lit "content-length")
  cases hcl : (b.entries host).lookup (lit "content-length") with
  | some value =>
    obtain ⟨front, back, hsplit, -⟩ := List.lookup_eq_some_iff.mp hcl
    have hmem : (lit "content-length", value) ∈ b.entries host := by
      rw [hsplit]
      simp
    obtain rfl := hs.lengths hmem
    have hlength : (b.head host).state.headers_.contentLength =
        some (UInt64.ofNat b.request_.body_.length) := by
      simp [Header.Collection.contentLength, hlookup, hcl]
    have hnat : (UInt64.ofNat b.request_.body_.length).toNat = b.request_.body_.length := by
      rw [UInt64.toNat_ofNat', Nat.mod_eq_of_lt b.body_lt]
    rw [bodyOut, BodyStep.apply_declared hlength hencoding, hrest, hnat, if_neg (Nat.lt_irrefl _),
      List.take_length, List.drop_length]
  | none =>
    have hlength : (b.head host).state.headers_.contentLength = none := by
      simp [Header.Collection.contentLength, hlookup, hcl]
    have hbody : b.request_.body_ = [] := by
      by_contra hne
      have hin : (lit "content-length",
          TypedHeader.ContentLength (UInt64.ofNat b.request_.body_.length)) ∈ b.entries host :=
        mem_entries.mpr ⟨_, mem_written.mpr (.inr (.inr (.inr ⟨hne, rfl⟩))),
          show (lit "Content-Length").map tolower = lit "content-length" by decide,
          (Classes.contentLength_survives _).read⟩
      have hne' := List.lookup_eq_none_iff.mp hcl _ hin
      simp at hne'
    rw [bodyOut, BodyStep.apply_none hlength hencoding, hrest, hbody, Message.append_nil]

theorem Survives.comesBack
    (hfeed : (RequestParser.new maxDataSize : ParserBase _ RequestLine).feed (b.wire host) = some p) :
    b.ComesBack (b.wire host)
      (RequestParser.parse (classes inet6 rest custom).registry p) := by
  have hclean := hs.clean hhost
  have hhead := head_lines hclean (hs.thrown hhost)
  obtain ⟨hread, hnext⟩ := parse_wire hs.line hfeed
  obtain ⟨hdone, hmessage, hunread⟩ := hnext (by rw [hhead])
  have hout := hs.bodyOut_eq hhost
  have hown : (b.head host).state.own = b.lineRead.own := by rw [hhead]
  have hline := (requestLine_iff (H := Header.Class (WithHost X))
    (lit "HTTP/1.1" ++ CR :: LF :: b.behind host) b.query_nodup).mpr hs.line
  rw [← wire_eq, hread] at hline
  have hcookie : ∀ header ∈ b.written host,
      isCookieHeader (header.name (classes inet6 rest custom)) = false := by
    intro header hheader
    rcases List.mem_append.mp hheader with hin | hown'
    · obtain ⟨e, he, rfl⟩ := List.mem_map.mp hin
      by_cases hkey : e.1 ∈ ownKeys
      · exact ownKey_not_cookie ((headers_key he) ▸ hkey)
      · exact HeadersStep.not_cookie_of_typed (hs.headers e he hkey).read
    · exact ownKey_not_cookie (own_key hown')
  have hjar := head_cookies hclean (hs.thrown hhost) hcookie
  have hlast : (RequestParser.parse (classes inet6 rest custom).registry p).2.message =
      { (b.head host).state with
        toMessage := (b.head host).state.toMessage.append b.request_.body_ } := by
    rw [hmessage, hout]
  refine
    { done := by rw [hdone, hout]
      consumed := by rw [hunread, hout]
      method := ?_
      resource := ?_
      query := ?_
      headers := fun key hkey => ?_
      lines := fun host' hhost' => ?_
      cookies := ?_
      body := ?_ }
  · rw [hlast]
    exact (congrArg RequestLine.method_ hown).trans rfl
  · rw [hlast]
    exact (congrArg RequestLine.resource_ hown).trans hline.1
  · rw [hlast]
    change ((b.head host).state.own.query_).Perm _
    rw [hown]
    exact hline.2
  · rw [hlast]
    exact (head_headers hclean (hs.thrown hhost) key).trans (hs.headers_same hkey)
  · rw [hhost, Except.ok.injEq] at hhost'
    subst hhost'
    rw [hread]
    exact HeadersStep.lines_clean hclean _
  · rw [hlast]
    change SameTable (b.head host).state.cookies_ _
    rw [hjar]
    exact ((cookies_iff b.cookies_named b.cookies_nodup).mpr hs.cookies).2.2
  · rw [hlast]
    change (b.head host).state.body_ ++ b.request_.body_ = b.request_.body_
    rw [hhead]
    change (applyAll (update (classes inet6 rest custom).registry) ((b.lines host).map asRead)
      b.lineRead.toMessage).body_ ++ b.request_.body_ = b.request_.body_
    rw [(HeadersStep.applyAll_update_rest _ _).2]
    rfl

end Survives

/-! ## What comes back survives -/

section Back

variable (hhost : Host.parse inet6 (host_str b.request_.own.resource_) = .ok host)
  (hfeed : (RequestParser.new maxDataSize : ParserBase _ RequestLine).feed (b.wire host) = some p)
  (hback : b.ComesBack (b.wire host) (RequestParser.parse (classes inet6 rest custom).registry p))

include hfeed hback

/-- The request line has been read, and what it has left is in the message. -/
theorem back_line : LineSurvives b.request_.own := by
  obtain ⟨hwork, hstep, hunread⟩ := ParserBase.feed_new hfeed
  have hne : (RequestLineStep.apply (Request.new : Request (Header.Class (WithHost X)))
      p.buffer.unread).result ≠ .Done := by
    rw [hunread, wire_eq]
    exact line_ne_done _
  obtain ⟨hfirst, hhead⟩ := ParserBase.parse_done (classes inet6 rest custom).registry
    RequestLineStep.apply hwork hstep hne hback.done
  obtain ⟨-, hmessage, -⟩ := ((ParserBase.parse_message (classes inet6 rest custom).registry
    RequestLineStep.apply hwork hstep).2 hfirst).2 hhead
  have hown : (RequestParser.parse (classes inet6 rest custom).registry p).2.message.own =
      (RequestLineStep.apply (Request.new : Request (Header.Class (WithHost X)))
        (b.wire host)).state.own := by
    obtain ⟨ls, -, hstate, -⟩ := HeadersStep.exists_lines (classes inet6 rest custom).registry
      (RequestLineStep.apply (Request.new : Request (Header.Class (WithHost X)))
        p.buffer.unread).state
      (RequestLineStep.apply (Request.new : Request (Header.Class (WithHost X)))
        p.buffer.unread).rest
    refine (congrArg Derived.own hmessage).trans ?_
    change (HeadersStep.apply (classes inet6 rest custom).registry _ _).state.own = _
    rw [hstate, hunread]
  refine (requestLine_iff (H := Header.Class (WithHost X))
    (lit "HTTP/1.1" ++ CR :: LF :: b.behind host) b.query_nodup).mp ?_
  rw [← wire_eq, ← hown]
  exact ⟨hback.resource, hback.query⟩

include hhost

theorem back_clean : ∀ l ∈ b.lines host, Clean l := by
  intro l hl
  have hlines := hback.lines host hhost
  rw [(parse_wire (back_line hfeed hback) hfeed).1] at hlines
  have hin : asRead l ∈ HeadersStep.lines (b.behind host) := by
    rw [hlines]
    exact List.mem_map_of_mem hl
  exact HeadersStep.clean_of_asRead (HeadersStep.lines_isLine _ _ hin).toClean

omit hhost in
theorem back_next : (b.head host).result = .Next := by
  obtain ⟨hwork, hstep, hunread⟩ := ParserBase.feed_new hfeed
  have hread := (parse_wire (back_line hfeed hback) hfeed).1
  have hne : (RequestLineStep.apply (Request.new : Request (Header.Class (WithHost X)))
      p.buffer.unread).result ≠ .Done := by
    rw [hunread, hread]
    exact fun h => nomatch h
  have hhead := (ParserBase.parse_done (classes inet6 rest custom).registry
    RequestLineStep.apply hwork hstep hne hback.done).2
  rw [hunread, hread] at hhead
  exact hhead

theorem back_thrown : ∀ l ∈ b.lines host,
    thrown (classes inet6 rest custom).registry (asRead l) = none :=
  HeadersStep.apply_lines_next (back_clean hhost hfeed hback) (back_next hfeed hback)

theorem back_taken {header : TypedHeader (Header.Class (WithHost X))} (h : header ∈ b.written host) :
    Taken (classes inet6 rest custom) header :=
  ⟨back_clean hhost hfeed hback _ (mem_lines.mpr (.inr ⟨header, h, rfl⟩)),
    back_thrown hhost hfeed hback _ (mem_lines.mpr (.inr ⟨header, h, rfl⟩))⟩

omit hhost in
/-- The message is that behind the head, with the body. -/
theorem back_message : (RequestParser.parse (classes inet6 rest custom).registry p).2.message =
    { (b.head host).state with toMessage := (b.bodyOut host).state.2 } ∧
    (b.bodyOut host).result = .Done ∧ (b.bodyOut host).rest = [] := by
  obtain ⟨hdone, hmessage, hrest⟩ :=
    (parse_wire (back_line hfeed hback) hfeed).2 (back_next hfeed hback)
  exact ⟨hmessage, hdone.symm.trans hback.done, hrest.symm.trans hback.consumed⟩

theorem back_lookup {key : Bytes} (hkey : key ∉ ownKeys) :
    (b.entries host).lookup key = b.request_.headers_.headers.lookup key := by
  have hheaders := hback.headers key hkey
  rw [(back_message hfeed hback).1] at hheaders
  rw [← head_headers (back_clean hhost hfeed hback) (back_thrown hhost hfeed hback), ← hheaders]
  have hkeeps : (b.bodyOut host).state.2.headers_ = (b.head host).state.headers_ :=
    BodyStep.apply_headers _ _
  exact congrArg (fun h => h.headers.lookup key) hkeeps.symm

/-- A header that is compared is read for itself. -/
theorem back_header {e : Bytes × TypedHeader (Header.Class (WithHost X))} (he : e ∈ b.headers)
    (hkey : e.1 ∉ ownKeys) : (classes inet6 rest custom).Survives e.2 := by
  refine ⟨(back_taken hhost hfeed hback (List.mem_append_left _ (List.mem_map_of_mem he))).1, ?_⟩
  have hlookup := back_lookup hhost hfeed hback hkey
  rw [lookup_of_mem b.headers_nodup (v := e.2) (mem_headers.mp he).1] at hlookup
  obtain ⟨front, back, hsplit, -⟩ := List.lookup_eq_some_iff.mp hlookup
  obtain ⟨e', he', hname, htyped⟩ := (mem_entries_other hkey).mp
    (show (e.1, e.2) ∈ b.entries host by rw [hsplit]; simp)
  have hsame : e'.2 = e.2 := by
    have h₁ := lookup_of_mem headers_nodup' (k := e'.1) (v := e'.2) he'
    have h₂ := lookup_of_mem headers_nodup' (k := e.1) (v := e.2) he
    rw [hname, h₂, Option.some.injEq] at h₁
    exact h₁.symm
  rw [← hsame] at htyped ⊢
  exact htyped

theorem back_cookies : CookiesSurvive (b.request_.cookies_.map Prod.snd) := by
  have hclean := back_clean hhost hfeed hback
  have hthrown := back_thrown hhost hfeed hback
  have hline : (lit "Cookie", cookieText (b.request_.cookies_.map Prod.snd)) ∈ b.lines host :=
    List.mem_cons_self
  refine (cookies_iff b.cookies_named b.cookies_nodup).mp ⟨(hclean _ hline).oneLine, ?_, ?_⟩
  · have hread : thrown (classes inet6 rest custom).registry
        (asRead (lit "Cookie", cookieText (b.request_.cookies_.map Prod.snd))) =
          (cookieRead b.request_.cookies_).2 := thrown_cookies _
    rw [← hread]
    exact hthrown _ hline
  · have hcookie : ∀ header ∈ b.written host,
        isCookieHeader (header.name (classes inet6 rest custom)) = false := by
      intro header hheader
      rcases List.mem_append.mp hheader with hin | hown
      · obtain ⟨e, he, rfl⟩ := List.mem_map.mp hin
        by_cases hkey : e.1 ∈ ownKeys
        · exact ownKey_not_cookie ((headers_key he) ▸ hkey)
        · exact HeadersStep.not_cookie_of_typed (back_header hhost hfeed hback he hkey).read
      · exact ownKey_not_cookie (own_key hown)
    rw [← head_cookies hclean hthrown hcookie]
    have hcookies := hback.cookies
    rw [(back_message hfeed hback).1] at hcookies
    have hkeeps : (b.bodyOut host).state.2.cookies_ = (b.head host).state.cookies_ :=
      BodyStep.apply_cookies _ _
    change SameTable (b.bodyOut host).state.2.cookies_ _ at hcookies
    rwa [hkeeps] at hcookies

theorem back_encoding : b.request_.headers_.transferEncoding = none := by
  have hhead := head_lines (back_clean hhost hfeed hback) (back_thrown hhost hfeed hback)
  have hrest : (b.head host).rest = b.request_.body_ := by rw [hhead]
  have hkey := (head_headers (back_clean hhost hfeed hback) (back_thrown hhost hfeed hback)
    (lit "transfer-encoding")).trans
      (back_lookup hhost hfeed hback (show lit "transfer-encoding" ∉ ownKeys by decide))
  by_contra hsome
  obtain ⟨te, hte⟩ := Option.ne_none_iff_exists'.mp hsome
  have hencoding : (b.head host).state.headers_.transferEncoding = some te := by
    unfold Header.Collection.transferEncoding at hte ⊢
    rw [hkey]
    exact hte
  have hdone := (back_message hfeed hback).2.1
  cases hlength : (b.head host).state.headers_.contentLength with
  | some n =>
    rw [bodyOut, BodyStep.apply] at hdone
    simp [hlength, hencoding] at hdone
  | none =>
    have hbody : b.request_.body_ = [] := by
      by_contra hne
      have hin : (lit "content-length",
          TypedHeader.ContentLength (UInt64.ofNat b.request_.body_.length)) ∈ b.entries host :=
        mem_entries.mpr ⟨_, mem_written.mpr (.inr (.inr (.inr ⟨hne, rfl⟩))),
          show (lit "Content-Length").map tolower = lit "content-length" by decide,
          (Classes.contentLength_survives _).read⟩
      have hlookup := head_headers (back_clean hhost hfeed hback) (back_thrown hhost hfeed hback)
        (lit "content-length")
      cases hcl : (b.entries host).lookup (lit "content-length") with
      | none =>
        have hne' := List.lookup_eq_none_iff.mp hcl _ hin
        simp at hne'
      | some value =>
        obtain ⟨front, back, hsplit, -⟩ := List.lookup_eq_some_iff.mp hcl
        obtain ⟨header, -, hname, htyped⟩ := mem_entries.mp
          (show (lit "content-length", value) ∈ b.entries host by rw [hsplit]; simp)
        obtain ⟨n, rfl⟩ := HeadersStep.contentLength_of_typed hname htyped
        simp [Header.Collection.contentLength, hlookup, hcl] at hlength
    rw [bodyOut, BodyStep.apply, hrest, hbody] at hdone
    simp only [hlength, hencoding, BodyStep.parseTransferEncoding] at hdone
    split at hdone
    · cases hdone
    · cases hdone

/-- A length of the request itself is that of the body. -/
theorem back_length {e : Bytes × TypedHeader (Header.Class (WithHost X))} (he : e ∈ b.headers)
    (hname : e.1 = lit "content-length") :
    typed (classes inet6 rest custom).registry (asRead (e.2.line (classes inet6 rest custom))).1
      (asRead (e.2.line (classes inet6 rest custom))).2 =
        some (.ok (.ContentLength (UInt64.ofNat b.request_.body_.length))) := by
  have hclean := back_clean hhost hfeed hback
  have hthrown := back_thrown hhost hfeed hback
  have hkey : (e.2.name (classes inet6 rest custom)).map tolower = lit "content-length" :=
    (headers_key he).symm.trans hname
  obtain ⟨n, -, htyped⟩ := HeadersStep.typed_contentLength hkey
    (back_taken hhost hfeed hback (List.mem_append_left _ (List.mem_map_of_mem he))).2
  -- the request's own length is the first one
  have hfirst : (b.entries host).lookup (lit "content-length") = some (.ContentLength n) := by
    have hsplit : b.entries host =
        ((b.headers.map Prod.snd).map fun header =>
          asRead (header.line (classes inet6 rest custom))).filterMap
            (typedEntry (classes inet6 rest custom).registry) ++
        ((b.ownHeaders host).map fun header =>
          asRead (header.line (classes inet6 rest custom))).filterMap
            (typedEntry (classes inet6 rest custom).registry) := by
      have hcookie : typedEntry (classes inet6 rest custom).registry
          (asRead (lit "Cookie", cookieText (b.request_.cookies_.map Prod.snd))) = none := by
        unfold typedEntry
        split
        · rfl
        · rfl
      rw [entries, lines, List.map_cons, List.filterMap_cons_none hcookie, List.map_append,
        List.map_append, List.filterMap_append]
      simp only [List.map_map, Function.comp_def]
    have hown : ((lit "content-length", .ContentLength n) : Bytes × TypedHeader _) ∈
        ((b.headers.map Prod.snd).map fun header =>
          asRead (header.line (classes inet6 rest custom))).filterMap
            (typedEntry (classes inet6 rest custom).registry) := by
      refine List.mem_filterMap.mpr ⟨_, List.mem_map_of_mem (List.mem_map_of_mem he), ?_⟩
      rw [HeadersStep.typedEntry_of_typed htyped]
      exact congrArg some (Prod.ext hkey rfl)
    have hkeys : ∀ x ∈ ((b.headers.map Prod.snd).map fun header =>
        asRead (header.line (classes inet6 rest custom))).filterMap
          (typedEntry (classes inet6 rest custom).registry), x.1 = lit "content-length" →
            x.2 = .ContentLength n := by
      intro x hx hxkey
      obtain ⟨l, hl, hentry⟩ := List.mem_filterMap.mp hx
      rw [List.map_map] at hl
      obtain ⟨e', he', rfl⟩ := List.mem_map.mp hl
      obtain ⟨hname', htyped'⟩ := HeadersStep.typedEntry_some hentry
      have hsame : e'.2 = e.2 := by
        have h₁ := lookup_of_mem headers_nodup' (k := e'.1) (v := e'.2) he'
        have h₂ := lookup_of_mem headers_nodup' (k := e.1) (v := e.2) he
        rw [(headers_key he').trans (hname'.symm.trans hxkey), ← hname, h₂, Option.some.injEq] at h₁
        exact h₁.symm
      have hboth : typed (classes inet6 rest custom).registry
          (asRead (e.2.line (classes inet6 rest custom))).1
          (asRead (e.2.line (classes inet6 rest custom))).2 = some (.ok x.2) := by
        rw [← hsame]
        exact htyped'
      rw [htyped, Option.some.injEq, Except.ok.injEq] at hboth
      exact hboth.symm
    rw [hsplit, List.lookup_append, lookup_of_unique hown hkeys, Option.some_or]
  have hlength : (b.head host).state.headers_.contentLength = some n := by
    simp [Header.Collection.contentLength, head_headers hclean hthrown, hfirst]
  have hencoding : (b.head host).state.headers_.transferEncoding = none := by
    have hsame := (head_headers hclean hthrown (lit "transfer-encoding")).trans
      (back_lookup hhost hfeed hback (show lit "transfer-encoding" ∉ ownKeys by decide))
    have hnone := back_encoding hhost hfeed hback
    unfold Header.Collection.transferEncoding at hnone ⊢
    rw [hsame]
    exact hnone
  have hrest : (b.head host).rest = b.request_.body_ := by rw [head_lines hclean hthrown]
  have hout : b.bodyOut host = _ := BodyStep.apply_declared hlength hencoding (b.head host).rest
  obtain ⟨-, hdone, hconsumed⟩ := back_message hfeed hback
  rw [hout, hrest] at hdone hconsumed
  by_cases hlt : b.request_.body_.length < n.toNat
  · rw [if_pos hlt] at hdone
    cases hdone
  · rw [if_neg hlt] at hconsumed
    have hge : b.request_.body_.length ≤ n.toNat := List.drop_eq_nil_iff.mp hconsumed
    have heq : n.toNat = b.request_.body_.length := by omega
    rw [htyped, ← heq, UInt64.ofNat_toNat]

theorem back_survives : b.Survives where
  line := back_line hfeed hback
  cookies := back_cookies hhost hfeed hback
  headers _ he hkey := back_header hhost hfeed hback he hkey
  hostHeader _ he _ := back_taken hhost hfeed hback (List.mem_append_left _ (List.mem_map_of_mem he))
  contentLength _ he hname :=
    ⟨(back_taken hhost hfeed hback (List.mem_append_left _ (List.mem_map_of_mem he))).1,
      back_length hhost hfeed hback he hname⟩
  transferEncoding := back_encoding hhost hfeed hback
  host host' hhost' := by
    rw [hhost, Except.ok.injEq] at hhost'
    subst hhost'
    exact back_taken hhost hfeed hback (mem_written.mpr (.inr (.inr (.inl rfl))))

end Back

/-- A host that is a name on one line is taken, unless an application has a class of its own for
`Host`. -/
theorem host_taken {name : Bytes} (hname : Host.Plain name) (hline : OneLine name)
    (hcustom : ∀ text ∈ custom, text.map tolower ≠ lit "host") (port : UInt16) :
    Taken (classes inet6 rest custom) (.other (.rest (.Host ⟨name, port⟩))) := by
  obtain ⟨read, hread⟩ := Host.write_reads inet6 hname port
  have hone : OneLine (Host.write ⟨name, port⟩) := by
    unfold Host.write
    split
    · exact (oneLine_append_cons (by decide) (by decide)).mpr
        ⟨hline, oneLine_of_not_mem (Classes.numeral_CR _)⟩
    · rwa [List.append_nil]
  refine ⟨⟨show HeadersStep.colon ∉ lit "Host" by decide, show eol (lit "Host") = false by decide,
    hone⟩, ?_⟩
  have hfind : (Header.textClasses custom).find? (fun cls => cls.name.map tolower = lit "host") =
      none := by
    rw [List.find?_eq_none]
    intro cls hcls
    rcases List.mem_append.mp hcls with hcls | hcls
    · simp only [List.mem_cons, List.not_mem_nil, or_false] at hcls
      rcases hcls with rfl | rfl | rfl | rfl | rfl | rfl | rfl <;> decide
    · obtain ⟨text, htext, rfl⟩ := List.mem_map.mp hcls
      rw [decide_eq_true_iff]
      exact hcustom text htext
  have hothers : (classes inet6 rest custom).others (lit "host") =
      some fun str => ((Host.parse inet6 str).map WithHost.Host).map .rest := by
    have hkeys : lit "host" ≠ lit "allow" ∧ lit "host" ≠ lit "content-encoding" ∧
        lit "host" ≠ lit "expect" ∧ lit "host" ≠ lit "server" := by decide
    change Header.Class.others (WithHost.classes inet6 rest) custom (lit "host") = _
    simp only [Header.Class.others, hkeys.1, hkeys.2.1, hkeys.2.2.1, hkeys.2.2.2, if_false, hfind]
    rfl
  suffices htyped : typed (classes inet6 rest custom).registry (lit "Host")
      ((Host.write ⟨name, port⟩).dropWhile (· = SP)) = some (.ok (.other (.rest (.Host read)))) from
    HeadersStep.thrown_of_typed htyped
  change (if isCookieHeader (lit "Host") = true then none
    else (classes inet6 rest custom).registry.parse (lit "Host")
      ((Host.write ⟨name, port⟩).dropWhile (· = SP))) = _
  have hcookie : isCookieHeader (lit "Host") = false := by decide
  have hlow : (lit "Host").map tolower = lit "host" := by decide
  have hkeys : lit "host" ≠ lit "content-length" ∧ lit "host" ≠ lit "transfer-encoding" ∧
      lit "host" ≠ lit "connection" := by decide
  rw [hcookie, if_neg (by decide), Registry.parse, hlow]
  simp only [hkeys.1, hkeys.2.1, hkeys.2.2, if_false]
  change ((classes inet6 rest custom).others (lit "host")).map _ = _
  rw [hothers]
  simp [hread, Except.map]

/-- **Requests that come back.**  What the client writes for a request is parsed to the request
again if and only if each of its parts survives on its own. -/
theorem roundtrip_iff (b : RequestBuilder (classes inet6 rest custom)) {bytes : Bytes}
    (hsend : b.send = .ok bytes) {maxDataSize : Nat}
    {p : ParserBase (Header.Class (WithHost X)) RequestLine}
    (hfeed : (RequestParser.new maxDataSize : ParserBase _ RequestLine).feed bytes = some p) :
    b.ComesBack bytes (RequestParser.parse (classes inet6 rest custom).registry p) ↔ b.Survives := by
  rw [send_eq] at hsend
  cases hhost : Host.parse inet6 (host_str b.request_.own.resource_) with
  | error e => simp [hhost, Except.map] at hsend
  | ok host =>
    simp only [hhost, Except.map, Except.ok.injEq] at hsend
    subst hsend
    exact ⟨fun hback => back_survives hhost hfeed hback, fun hs => hs.comesBack hhost hfeed⟩

/-- A C library for which no text is an IPv6 address. -/
def noInet6 : Inet6 where
  normalize _ := none
  colons := Inet6.none_colons
  plain := Inet6.none_plain

/-- A request with a parameter, a header, a cookie and a body. -/
def greeting : RequestBuilder (classes noInet6 Classes.none []) :=
  ((((prepareRequest (lit "https://example.com/a") .Post).params
    [(lit "k", lit "v=1")] (by decide)).header (.other (.text .Authorization (lit "x y")))).cookie
      (Cookie.new (lit "n") (lit "v"))).body (lit "hello") (by decide)

theorem greeting_survives : greeting.Survives where
  line :=
    { path := by decide
      query := by decide
      keys := by decide
      one := .inl (by decide)
      names := by decide
      values := by decide }
  cookies :=
    { plain := by decide
      names := by decide
      values := by decide
      tabs := by decide }
  headers e he _ := by
    have hheaders : greeting.headers = [(lit "authorization", .other (.text .Authorization (lit "x y")))] :=
      rfl
    rw [hheaders, List.mem_singleton] at he
    subst he
    exact (Header.text_survives_iff (fun name h => by cases h) _).mpr (by decide)
  hostHeader e he hkey := by
    have hheaders : greeting.headers = [(lit "authorization", .other (.text .Authorization (lit "x y")))] :=
      rfl
    rw [hheaders, List.mem_singleton] at he
    subst he
    exact absurd hkey (by decide)
  contentLength e he hkey := by
    have hheaders : greeting.headers = [(lit "authorization", .other (.text .Authorization (lit "x y")))] :=
      rfl
    rw [hheaders, List.mem_singleton] at he
    subst he
    exact absurd hkey (by decide)
  transferEncoding := rfl
  host host hhost := by
    have hparse : Host.parse noInet6 (lit "example.com:443") = .ok ⟨lit "example.com", 443⟩ := by
      decide
    have hsame : (.ok ⟨lit "example.com", 443⟩ : Except Exn Host) = .ok host := hparse.symm.trans hhost
    rw [Except.ok.injEq] at hsame
    subst hsame
    exact ⟨by decide, by decide⟩

def greetingBytes : Bytes :=
  lit "POST /a?k=v=1 HTTP/1.1\r\nCookie: n=v\r\nAuthorization: x y\r\nUser-Agent: pistache/0.1\r\n" ++
    lit "Host: example.com:443\r\nContent-Length: 5\r\n\r\nhello"

set_option maxRecDepth 4000 in
theorem greeting_roundtrip : greeting.ComesBack greetingBytes
    (RequestParser.parse (classes noInet6 Classes.none []).registry
      { (RequestParser.new 4096 : ParserBase (Header.Class (WithHost Empty)) RequestLine) with
        buffer := ⟨[], greetingBytes, 4096⟩ }) := by
  have hsend : greeting.send = .ok greetingBytes := by decide
  have hfeed : (RequestParser.new 4096 :
      ParserBase (Header.Class (WithHost Empty)) RequestLine).feed greetingBytes =
        some { (RequestParser.new 4096 : ParserBase (Header.Class (WithHost Empty)) RequestLine) with
          buffer := ⟨[], greetingBytes, 4096⟩ } := rfl
  exact (roundtrip_iff greeting hsend hfeed).mpr greeting_survives

/-- A parameter that is added to a URL with one. -/
def twice : RequestBuilder (classes noInet6 Classes.none []) :=
  (prepareRequest (lit "http://h/p?a=1") .Get).params [(lit "b", lit "2")] (by decide)

/-- **A parameter that is added to a URL with one is lost.**  The second `?` goes into the value of
the first. -/
theorem params_merge : ∃ p : ParserBase (Header.Class (WithHost Empty)) RequestLine,
    twice.send = .ok (lit "GET /p?a=1?b=2 HTTP/1.1\r\nCookie: \r\nUser-Agent: pistache/0.1\r\nHost: h:80\r\n\r\n") ∧
    (RequestParser.new 4096 : ParserBase (Header.Class (WithHost Empty)) RequestLine).feed
      (lit "GET /p?a=1?b=2 HTTP/1.1\r\nCookie: \r\nUser-Agent: pistache/0.1\r\nHost: h:80\r\n\r\n") =
        some p ∧
    (RequestParser.parse (classes noInet6 Classes.none []).registry p).1 = .Done ∧
    ¬twice.ComesBack
      (lit "GET /p?a=1?b=2 HTTP/1.1\r\nCookie: \r\nUser-Agent: pistache/0.1\r\nHost: h:80\r\n\r\n")
      (RequestParser.parse (classes noInet6 Classes.none []).registry p) := by
  refine ⟨_, by decide, rfl, by decide, fun h => ?_⟩
  have hlength := h.query.length_eq
  exact absurd hlength (by decide)

end RequestBuilder

end Pistache.Client
