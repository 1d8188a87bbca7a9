import Pistache.Http.Host
import Pistache.Http.RequestTarget
import Pistache.Http.ResponseWriter

/-!
# The request that a client writes

`RequestBuilder` with what an application can ask for, `Client::doRequest` up to the transport,
and `writeRequest`.  The tables of the source are hash maps; a list is one of the orders in which
they can be gone through.

* `splitUrl_scheme`, `splitUrl_bare` — how a URL is taken apart.
* `RequestBuilder.send_eq` — what is written.
-/

set_option autoImplicit false

namespace Pistache.Client

open Http Replay
open Chunked (crlf)
open HeadersStep (lineText)
open RequestLineStep (questionMark ampersand)

variable {X : Type}

def slash : UInt8 := 47

/-- The header classes of the repository, over a C library and other classes. -/
def classes (inet6 : Inet6) (rest : Classes X) (custom : List Bytes) :
    Classes (Header.Class (WithHost X)) :=
  Header.classes (WithHost.classes inet6 rest) custom

/-! ## URLs -/

/-- `splitUrl`: the host and the page, and whether the URL begins with `https://`. -/
def splitUrl (url : Bytes) (remove_subdomain : Bool) : Bytes × Bytes × Bool :=
  let (cursor, https) :=
    match match_string (lit "http://") url with
    | some cursor => (cursor, false)
    | none =>
      match match_string (lit "https://") url with
      | some cursor => (cursor, true)
      | none => (url, false)
  let cursor :=
    if remove_subdomain then
      let cursor := (match_string (lit "www") cursor).getD cursor
      if cursor.head? = some 46 then cursor.drop 1 else cursor
    else cursor
  let (host, page) := (match_until [questionMark, slash] cursor).getD (cursor, [])
  (host, page, https)

/-- The host ends in front of the first `?` or `/`. -/
theorem match_host {host page : Bytes} (hhost : questionMark ∉ host ∧ slash ∉ host)
    (hpage : page = [] ∨ page.head? = some questionMark ∨ page.head? = some slash) :
    (match_until [questionMark, slash] (host ++ page)).getD (host ++ page, []) = (host, page) := by
  have htok : ∀ x ∈ host, x ∉ [questionMark, slash] := fun x hx hin => by
    simp only [List.mem_cons, List.not_mem_nil, or_false] at hin
    rcases hin with rfl | rfl
    · exact hhost.1 hx
    · exact hhost.2 hx
  cases page with
  | nil => rw [List.append_nil, match_until_none htok, Option.getD_none]
  | cons c page =>
    have hc : c ∈ [questionMark, slash] := by simpa using hpage
    rw [match_until_token hc htok, Option.getD_some]

/-- **A URL with a scheme.** -/
theorem splitUrl_scheme {scheme host page : Bytes} {https : Bool}
    (hscheme : scheme.map tolower = if https then lit "https://" else lit "http://")
    (hhost : questionMark ∉ host ∧ slash ∉ host)
    (hpage : page = [] ∨ page.head? = some questionMark ∨ page.head? = some slash) :
    splitUrl (scheme ++ (host ++ page)) false = (host, page, https) := by
  have hlength := congrArg List.length hscheme
  rw [List.length_map] at hlength
  cases https with
  | false =>
    have hhttp : match_string (lit "http://") (scheme ++ (host ++ page)) = some (host ++ page) := by
      have hlen : scheme.length = (lit "http://").length := hlength
      have hlow : (lit "http://").map tolower = lit "http://" := by decide
      unfold match_string
      rw [← hlen, if_neg (by simp), List.take_left, List.drop_left, if_pos (by rw [hlow, hscheme]; rfl)]
    simp only [splitUrl, hhttp, Bool.false_eq_true, if_false, match_host hhost hpage]
  | true =>
    have hlen : scheme.length = (lit "https://").length := hlength
    have hhttp : match_string (lit "http://") (scheme ++ (host ++ page)) = none := by
      have htake : (scheme ++ (host ++ page)).take (lit "http://").length = scheme.take 7 := by
        rw [List.take_append_of_le_length (by rw [hlen]; decide)]
        rfl
      have hne : (lit "http://").map tolower ≠ (scheme.take 7).map tolower := by
        rw [List.map_take, hscheme]
        decide
      unfold match_string
      rw [htake, if_neg hne, ite_self]
    have hhttps : match_string (lit "https://") (scheme ++ (host ++ page)) = some (host ++ page) := by
      have hlow : (lit "https://").map tolower = lit "https://" := by decide
      unfold match_string
      rw [← hlen, if_neg (by simp), List.take_left, List.drop_left, if_pos (by rw [hlow, hscheme]; rfl)]
    simp only [splitUrl, hhttp, hhttps, Bool.false_eq_true, if_false, match_host hhost hpage]

/-- **A URL without one.** -/
theorem splitUrl_bare {host page : Bytes} (hhttp : match_string (lit "http://") (host ++ page) = none)
    (hhttps : match_string (lit "https://") (host ++ page) = none)
    (hhost : questionMark ∉ host ∧ slash ∉ host)
    (hpage : page = [] ∨ page.head? = some questionMark ∨ page.head? = some slash) :
    splitUrl (host ++ page) false = (host, page, false) := by
  simp only [splitUrl, hhttp, hhttps, Bool.false_eq_true, if_false, match_host hhost hpage]

/-- The page of a URL is empty, or begins with a `?` or a `/`. -/
theorem splitUrl_page (url : Bytes) (remove_subdomain : Bool) :
    (splitUrl url remove_subdomain).2.1 = [] ∨
      (splitUrl url remove_subdomain).2.1.head? = some questionMark ∨
      (splitUrl url remove_subdomain).2.1.head? = some slash := by
  have hmatch : ∀ cursor : Bytes,
      ((match_until [questionMark, slash] cursor).getD (cursor, [])).2 = [] ∨
        ((match_until [questionMark, slash] cursor).getD (cursor, [])).2.head? = some questionMark ∨
        ((match_until [questionMark, slash] cursor).getD (cursor, [])).2.head? = some slash := by
    intro cursor
    cases h : match_until [questionMark, slash] cursor with
    | none => exact .inl rfl
    | some p =>
      obtain ⟨-, c, page, hpage, hc⟩ := match_until_some h
      right
      rw [Option.getD_some, hpage]
      simpa using hc
  exact hmatch _

/-- `Query::as_str`. -/
def as_str (query : Query) : Bytes :=
  match query.flatMap fun e => lit "&" ++ e.1 ++ lit "=" ++ e.2 with
  | [] => []
  | _ :: query_url => questionMark :: query_url

/-! ## The builder -/

/-- `RequestBuilder`: the request, with what its tables keep. -/
structure RequestBuilder {H : Type} (classes : Classes H) where
  request_ : Request H
  headers_named : ∀ e ∈ request_.headers_.headers, e.1 = (e.2.name classes).map tolower
  headers_nodup : (request_.headers_.headers.map Prod.fst).Nodup
  cookies_named : ∀ e ∈ request_.cookies_, e.1 = (e.2.name, e.2.value)
  cookies_nodup : (request_.cookies_.map Prod.fst).Nodup
  query_nodup : (request_.own.query_.map Prod.fst).Nodup
  body_lt : request_.body_.length < 2 ^ 64

namespace RequestBuilder

section Build

variable {H : Type} {classes : Classes H}

/-- `Client::prepareRequest`. -/
def prepareRequest (resource_ : Bytes) (method_ : Method) : RequestBuilder classes where
  request_ := { own := { method_, resource_ } }
  headers_named := fun _ he => nomatch he
  headers_nodup := List.nodup_nil
  cookies_named := fun _ he => nomatch he
  cookies_nodup := CookieJar.nodup_nil
  query_nodup := List.nodup_nil
  body_lt := Nat.two_pow_pos 64

def method (b : RequestBuilder classes) (method_ : Method) : RequestBuilder classes :=
  { b with request_ := { b.request_ with own := { b.request_.own with method_ } } }

def resource (b : RequestBuilder classes) (resource_ : Bytes) : RequestBuilder classes :=
  { b with request_ := { b.request_ with own := { b.request_.own with resource_ } } }

def params (b : RequestBuilder classes) (query_ : Query) (h : (query_.map Prod.fst).Nodup) :
    RequestBuilder classes :=
  { b with
    request_ := { b.request_ with own := { b.request_.own with query_ } }
    query_nodup := h }

def header (b : RequestBuilder classes) (header : TypedHeader H) : RequestBuilder classes :=
  { b with
    request_ := { b.request_ with
      headers_ := b.request_.headers_.add (header.name classes) header }
    headers_named := fun e he => by
      rcases Replay.insertNew_mem he with he | rfl
      · exact b.headers_named e he
      · rfl
    headers_nodup := insertNew_nodup b.headers_nodup }

def cookie (b : RequestBuilder classes) (cookie : Cookie) : RequestBuilder classes :=
  { b with
    request_ := { b.request_ with cookies_ := b.request_.cookies_.add cookie }
    cookies_named := fun e he => by
      rcases Replay.insertNew_mem he with he | rfl
      · exact b.cookies_named e he
      · rfl
    cookies_nodup := insertNew_nodup b.cookies_nodup }

def body (b : RequestBuilder classes) (body_ : Bytes) (h : body_.length < 2 ^ 64) :
    RequestBuilder classes :=
  { b with request_ := { b.request_ with body_ }, body_lt := h }

end Build

end RequestBuilder

/-! ## Writing -/

section Write

variable (inet6 : Inet6) (rest : Classes X) (custom : List Bytes)

/-- `writeHeader`, and one header of `writeHeaders`. -/
def writeHeader (streamBuf : Bytes) (header : TypedHeader (Header.Class (WithHost X))) : Bytes :=
  streamBuf ++ header.name (classes inet6 rest custom) ++ lit ": " ++
    header.write (classes inet6 rest custom) ++ crlf

def writeHeaders (streamBuf : Bytes) (headers : Header.Collection (Header.Class (WithHost X))) :
    Bytes :=
  (headers.headers.map Prod.snd).foldl (writeHeader inet6 rest custom) streamBuf

def writeCookies (streamBuf : Bytes) (cookies : CookieJar) : Bytes :=
  let (_, streamBuf) := (cookies.map Prod.snd).foldl
    (fun (first, streamBuf) cookie =>
      (false, (if first then streamBuf else streamBuf ++ lit "; ") ++
        cookie.name ++ lit "=" ++ cookie.value))
    (true, streamBuf ++ lit "Cookie: ")
  streamBuf ++ crlf

/-- `UA`. -/
def UA : Bytes := lit "pistache/0.1"

/-- `Header::UserAgent(UA)`. -/
def userAgent : TypedHeader (Header.Class (WithHost X)) := .other (.text .UserAgent UA)

/-- The text that is given to `Header::Host`. -/
def host_str (resource_ : Bytes) : Bytes :=
  let (host, _, is_https) := splitUrl resource_ false
  host ++ if is_https ∧ 58 ∉ host then lit ":443" else []

def writeRequest (request : Request (Header.Class (WithHost X))) : Except Exn Bytes := do
  let (_, path, _) := splitUrl request.own.resource_ false
  let streamBuf := Header.methodString request.own.method_ ++ lit " "
  let streamBuf := if path.head? ≠ some slash then streamBuf ++ lit "/" else streamBuf
  let streamBuf := streamBuf ++ path ++ as_str request.own.query_
  let streamBuf := streamBuf ++ lit " HTTP/1.1" ++ crlf
  let streamBuf := writeCookies streamBuf request.cookies_
  let streamBuf := writeHeaders inet6 rest custom streamBuf request.headers_
  let streamBuf := writeHeader inet6 rest custom streamBuf userAgent
  let host ← Host.parse inet6 (host_str request.own.resource_)
  let streamBuf := writeHeader inet6 rest custom streamBuf (.other (.rest (.Host host)))
  let streamBuf :=
    if request.body_ ≠ [] then
      writeHeader inet6 rest custom streamBuf (.ContentLength (UInt64.ofNat request.body_.length))
    else streamBuf
  let streamBuf := streamBuf ++ crlf
  return if request.body_ ≠ [] then streamBuf ++ request.body_ else streamBuf

end Write

/-- `request.headers().remove<Header::UserAgent>()`, with which `doRequest` begins. -/
def removeUserAgent {H : Type} (request : Request H) : Request H :=
  { request with headers_ := { request.headers_ with
    headers := request.headers_.headers.filter fun e => e.1 ≠ lit "user-agent" } }

/-- What the transport writes for a request that is sent. -/
def RequestBuilder.send {inet6 : Inet6} {rest : Classes X} {custom : List Bytes}
    (b : RequestBuilder (classes inet6 rest custom)) : Except Exn Bytes :=
  writeRequest inet6 rest custom (removeUserAgent b.request_)

/-! ## What is written -/

/-- `name=value`. -/
def cookiePair (cookie : Cookie) : Bytes := cookie.name ++ Cookie.equals :: cookie.value

/-- The value of the line of cookies. -/
def cookieText : List Cookie → Bytes
  | [] => []
  | [cookie] => cookiePair cookie
  | cookie :: cookies => cookiePair cookie ++ Cookie.semicolon :: SP :: cookieText cookies

theorem cookieText_cons (c d : Cookie) (cookies : List Cookie) : cookieText (c :: d :: cookies) =
    cookiePair c ++ Cookie.semicolon :: SP :: cookieText (d :: cookies) := rfl

/-- The target in the request line. -/
def target (request : RequestLine) : Bytes :=
  let path := (splitUrl request.resource_ false).2.1
  (if path.head? ≠ some slash then [slash] else []) ++ path ++ as_str request.query_

namespace RequestBuilder

variable {inet6 : Inet6} {rest : Classes X} {custom : List Bytes}

/-- The headers that are written: all but a `User-Agent`. -/
def headers (b : RequestBuilder (classes inet6 rest custom)) :
    List (Bytes × TypedHeader (Header.Class (WithHost X))) :=
  b.request_.headers_.headers.filter fun e => e.1 ≠ lit "user-agent"

/-- The headers of `writeRequest` itself. -/
def ownHeaders (b : RequestBuilder (classes inet6 rest custom)) (host : Host) :
    List (TypedHeader (Header.Class (WithHost X))) :=
  [userAgent, .other (.rest (.Host host))] ++
    if b.request_.body_ = [] then []
    else [TypedHeader.ContentLength (UInt64.ofNat b.request_.body_.length)]

/-- The lines between the request line and the blank one. -/
def lines (b : RequestBuilder (classes inet6 rest custom)) (host : Host) : List (Bytes × Bytes) :=
  (lit "Cookie", cookieText (b.request_.cookies_.map Prod.snd)) ::
    (b.headers.map Prod.snd ++ b.ownHeaders host).map (TypedHeader.line (classes inet6 rest custom))

/-- The request. -/
def wire (b : RequestBuilder (classes inet6 rest custom)) (host : Host) : Bytes :=
  Header.methodString b.request_.own.method_ ++ SP :: (target b.request_.own ++
    SP :: (lit "HTTP/1.1" ++ CR :: LF :: ((b.lines host).flatMap lineText ++
      CR :: LF :: b.request_.body_)))

end RequestBuilder

theorem foldl_writeCookie : ∀ (cookies : List Cookie) (streamBuf : Bytes),
    (cookies.foldl
      (fun (state : Bool × Bytes) cookie =>
        (false, (if state.1 then state.2 else state.2 ++ lit "; ") ++
          cookie.name ++ lit "=" ++ cookie.value))
      (false, streamBuf)).2 =
        streamBuf ++ if cookies = [] then [] else Cookie.semicolon :: SP :: cookieText cookies
  | [], streamBuf => by simp
  | [cookie], streamBuf => by
    simp [cookieText, cookiePair, lit, Cookie.semicolon, Cookie.equals, SP]
  | cookie :: c :: cookies, streamBuf => by
    rw [List.foldl_cons, foldl_writeCookie (c :: cookies)]
    simp [cookieText, cookiePair, lit, Cookie.semicolon, Cookie.equals, SP]

theorem writeCookies_eq (streamBuf : Bytes) (cookies : CookieJar) :
    writeCookies streamBuf cookies =
      streamBuf ++ lineText (lit "Cookie", cookieText (cookies.map Prod.snd)) := by
  cases hcookies : cookies.map Prod.snd with
  | nil => simp [writeCookies, hcookies, cookieText, lineText, lit, crlf, HeadersStep.colon, SP]
  | cons cookie cs =>
    have hfold := foldl_writeCookie cs
      (streamBuf ++ lit "Cookie: " ++ cookie.name ++ lit "=" ++ cookie.value)
    simp only [writeCookies, hcookies, List.foldl_cons, if_true]
    rw [hfold]
    cases cs with
    | nil =>
      simp [cookieText, cookiePair, lineText, lit, crlf, HeadersStep.colon, SP, Cookie.equals]
    | cons c cs =>
      simp [cookieText, cookiePair, lineText, lit, crlf, HeadersStep.colon, SP, Cookie.equals]

section WriteEq

variable {inet6 : Inet6} {rest : Classes X} {custom : List Bytes}

theorem writeHeader_eq (streamBuf : Bytes) (header : TypedHeader (Header.Class (WithHost X))) :
    writeHeader inet6 rest custom streamBuf header =
      streamBuf ++ lineText (header.line (classes inet6 rest custom)) := by
  simp [writeHeader, lineText, TypedHeader.line, lit, HeadersStep.colon, SP, crlf]

theorem writeHeaders_eq (streamBuf : Bytes)
    (headers : Header.Collection (Header.Class (WithHost X))) :
    writeHeaders inet6 rest custom streamBuf headers = streamBuf ++
      ((headers.headers.map Prod.snd).map (TypedHeader.line (classes inet6 rest custom))).flatMap
        lineText := by
  unfold writeHeaders
  generalize headers.headers.map Prod.snd = hs
  induction hs generalizing streamBuf with
  | nil => simp
  | cons header hs ih =>
    rw [List.foldl_cons, ih, writeHeader_eq, List.map_cons, List.flatMap_cons, List.append_assoc]

theorem requestLine_eq (request : RequestLine) (xs : Bytes) :
    (if (splitUrl request.resource_ false).2.1.head? ≠ some slash then
        Header.methodString request.method_ ++ lit " " ++ lit "/"
      else Header.methodString request.method_ ++ lit " ") ++
        (splitUrl request.resource_ false).2.1 ++ as_str request.query_ ++
        (lit " HTTP/1.1" ++ crlf ++ xs) =
      Header.methodString request.method_ ++ SP :: (target request ++
        SP :: (lit "HTTP/1.1" ++ CR :: LF :: xs)) := by
  unfold target
  dsimp only
  by_cases hpath : (splitUrl request.resource_ false).2.1.head? = some slash
  · simp only [hpath, ne_eq, not_true, if_false]
    simp [lit, crlf, SP, CR, LF]
  · simp only [hpath, ne_eq, not_false_eq_true, if_true]
    simp [lit, crlf, SP, CR, LF, slash]

/-- **What is written for a request.** -/
theorem RequestBuilder.send_eq (b : RequestBuilder (classes inet6 rest custom)) :
    b.send = (Host.parse inet6 (host_str b.request_.own.resource_)).map b.wire := by
  simp only [send, writeRequest, removeUserAgent, bind, Except.bind, pure, Except.pure]
  cases Host.parse inet6 (host_str b.request_.own.resource_) with
  | error e => rfl
  | ok host =>
    have hline := requestLine_eq b.request_.own ((b.lines host).flatMap lineText ++
      CR :: LF :: b.request_.body_)
    rw [Except.map, wire, ← hline]
    simp only [Except.ok.injEq, writeCookies_eq, writeHeaders_eq, writeHeader_eq, lines, ownHeaders,
      headers, List.map_cons, List.flatMap_cons, List.map_append, List.flatMap_append,
      List.append_assoc]
    by_cases hbody : b.request_.body_ = []
    · simp [hbody, crlf]
    · simp [hbody, crlf]

end WriteEq

end Pistache.Client
