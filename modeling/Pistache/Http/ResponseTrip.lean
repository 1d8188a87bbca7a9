import Pistache.Http.ResponseWriter
import Pistache.Http.WholeMessage

/-!
# Responses read back

What `ResponseParser` makes of the bytes that `putOnWire` has written.

Principal results:

* `ResponseWriter.comesBack_iff` — a response comes back as it was if and only if each of its
  headers and cookies survives on its own, it has no `Transfer-Encoding`, and a `Content-Length`
  of its own is the right one.
* `ResponseWriter.location_injects` — a header value with a CRLF adds a header.
-/

set_option autoImplicit false

namespace Pistache.Http

open Replay Resumable
open Chunked (crlf)
open HeadersStep (Clean IsLine asRead lineText typedEntry rawEntry thrown update typed)

variable {H : Type} {classes : Classes H}

/-! ## The status line -/

theorem from_charsInt_intText {n : Int} (h : -(2 ^ 31) ≤ n ∧ n < 2 ^ 31) :
    from_charsInt (intText n) = .ok (n, []) := by
  have hdigits := Cookie.numeral_digits n.natAbs
  have htake : (numeral 10 n.natAbs).takeWhile (isDigitOf 10) = numeral 10 n.natAbs :=
    List.takeWhile_eq_self_iff.mpr hdigits
  have hdrop : (numeral 10 n.natAbs).dropWhile (isDigitOf 10) = [] :=
    List.dropWhile_eq_nil_iff.mpr hdigits
  have hvalue := digitsValue_numeral (show 1 < 10 by decide) (by decide) n.natAbs
  have hne := numeral_ne_nil 10 n.natAbs
  unfold intText
  by_cases hneg : n < 0
  · have hint : -((n.natAbs : Nat) : Int) = n := by omega
    rw [if_pos hneg]
    simp only [from_charsInt, List.head?_cons, if_true, List.drop_succ_cons,
      List.drop_zero, htake, hdrop, hne, hvalue, if_false, hint, if_pos h]
  · have hint : ((n.natAbs : Nat) : Int) = n := by omega
    have hhead : (numeral 10 n.natAbs).head? ≠ some 45 := by
      obtain ⟨c, text, htext⟩ := List.exists_cons_of_ne_nil hne
      have hc : isDigitOf 10 c = true := hdigits c (by rw [htext]; simp)
      rw [htext]
      intro heq
      obtain rfl : c = 45 := by simpa using heq
      simp [isDigitOf, digitValue] at hc
    rw [if_neg hneg]
    simp only [from_charsInt, hhead, if_false, htake, hdrop, hne, hvalue, hint, if_pos h]

theorem intText_SP (n : Int) : ∀ x ∈ intText n, x ∉ [SP] := by
  intro x hx hin
  rw [List.mem_singleton] at hin
  subst hin
  have hdigit : SP ∈ numeral 10 n.natAbs := by
    unfold intText at hx
    split at hx
    · rcases List.mem_cons.mp hx with h | h
      · cases h
      · exact h
    · exact hx
  have := Cookie.numeral_digits _ _ hdigit
  simp [isDigitOf, digitValue, SP] at this

theorem codeString_oneLine (code : Code) : OneLine (codeString code) := by
  have htable : ∀ e ∈ statusCodes, CR ∉ e.2 := by decide
  unfold codeString
  cases h : statusCodes.lookup code.value with
  | none => decide
  | some reason =>
    obtain ⟨front, back, hsplit, -⟩ := List.lookup_eq_some_iff.mp h
    exact oneLine_of_not_mem (htable (code.value, reason) (by rw [hsplit]; simp))

namespace ResponseLineStep

theorem version_read (version' : Version) (m : Response H) (rest : Bytes) :
    version m (versionString version' ++ SP :: rest) = ⟨.Next, m, rest⟩ := by
  have hmatch : ((match_raw (lit "HTTP/1.1") (versionString version' ++ SP :: rest)).orElse
      fun _ => match_raw (lit "HTTP/1.0") (versionString version' ++ SP :: rest)) =
        some (SP :: rest) := by
    cases version' with
    | Http10 =>
      rw [versionString, match_raw_ne (by decide) (by decide), match_raw_append]
      rfl
    | Http11 =>
      rw [versionString, match_raw_append]
      rfl
  simp only [version, hmatch]
  rfl

/-- **A status line is read.** -/
theorem apply_statusLine (version' : Version) {c : Code} (h : -(2 ^ 31) ≤ c.value ∧ c.value < 2 ^ 31)
    (m : Response H) (rest : Bytes) :
    apply m (ResponseWriter.statusLine version' c ++ rest) = ⟨.Next, { m with code_ := c }, rest⟩ := by
  have htext : ResponseWriter.statusLine version' c ++ rest =
      versionString version' ++ SP :: (intText c.value ++ SP ::
        (codeString c ++ CR :: LF :: rest)) := by
    simp [ResponseWriter.statusLine, crlf, lit, SP]
  have hcode : code m (intText c.value ++ SP :: (codeString c ++ CR :: LF :: rest)) =
      ⟨.Next, { m with code_ := c }, codeString c ++ CR :: LF :: rest⟩ := by
    simp only [code, match_until_token (show SP ∈ [SP] by simp) (intText_SP c.value),
      from_charsInt_intText h]
    rfl
  have hreason : reason ({ m with code_ := c } : Response H) (codeString c ++ CR :: LF :: rest) =
      ⟨.Next, { m with code_ := c }, rest⟩ := by
    simp only [reason, (codeString_oneLine c).untilEol rest]
    rfl
  have hparts : andThen State.Next (andThen State.Next version code) reason m
      (ResponseWriter.statusLine version' c ++ rest) = ⟨.Next, { m with code_ := c }, rest⟩ := by
    rw [htext]
    simp only [andThen, version_read, hcode, hreason, if_true]
  exact (revert_next State.Next (by rw [hparts])).trans hparts

end ResponseLineStep

/-! ## The parse -/

namespace ResponseWriter

variable (w : ResponseWriter classes) (data : Bytes)

/-- What the parser works on when the status line has been read. -/
def lineRead : Response H := { (Response.new : Response H) with code_ := w.response_.code_ }

/-- The headers of the message, as the parser takes them. -/
def head : Out State (Response H) UInt8 :=
  HeadersStep.apply classes.registry w.lineRead ((w.lines data).flatMap lineText ++ CR :: LF :: data)

/-- The body of the message, as the parser takes it behind the head. -/
def body : Out State (BodyStep × Message H) UInt8 :=
  BodyStep.apply ({}, (w.head data).state.toMessage) (w.head data).rest

variable {w data} {p : ParserBase H Unit} {maxDataSize : Nat}

theorem line_read : ResponseLineStep.apply (Response.new : Response H) (w.wire data) =
    ⟨.Next, w.lineRead, (w.lines data).flatMap lineText ++ CR :: LF :: data⟩ := by
  have htext : w.wire data = statusLine w.response_.version_ w.response_.code_ ++
      ((w.lines data).flatMap lineText ++ CR :: LF :: data) := by
    simp [wire, crlf]
  rw [htext]
  exact ResponseLineStep.apply_statusLine w.response_.version_ w.code_int Response.new _

/-- The parse is the head and the body. -/
theorem parse_wire (hfeed : (ResponseParser.new maxDataSize : ParserBase H Unit).feed (w.wire data) = some p) :
    ((w.head data).result = .Next →
      (ResponseParser.parse classes.registry p).1 = (w.body data).result ∧
      (ResponseParser.parse classes.registry p).2.message.toMessage = (w.body data).state.2 ∧
      (ResponseParser.parse classes.registry p).2.buffer.unread = (w.body data).rest) ∧
    ((w.head data).result ≠ .Next →
      (ResponseParser.parse classes.registry p).1 = (w.head data).result) := by
  obtain ⟨hwork, hstep, hunread⟩ := ParserBase.feed_new hfeed
  obtain ⟨hnot, hnext⟩ := ((ParserBase.parse_message classes.registry
    ResponseLineStep.apply hwork hstep).2 (by rw [hunread, line_read]))
  rw [hunread, line_read] at hnot hnext
  refine ⟨fun hhead => ?_, fun hhead => hnot hhead⟩
  obtain ⟨hdone, hmessage, hrest⟩ := hnext hhead
  exact ⟨hdone, congrArg Derived.toMessage hmessage, hrest⟩

/-! ## Lines of cookies -/

section Cookies

variable {dates : Dates} {registry : Registry H}

/-- What is read of the text of a cookie. -/
def cookieRead (dates : Dates) (cookie : Cookie) : Cookie :=
  match Cookie.fromRaw dates.fromString (cookie.write dates) with
  | .ok cookie => cookie
  | .error _ => cookie

theorem asRead_cookieLine {cookie : Cookie} (h : cookie.Readable) :
    asRead (cookieLine dates cookie) = cookieLine dates cookie := by
  have hspace := Header.dropWhile_space.mpr (h.write_line dates).2
  exact Prod.ext rfl hspace

theorem cookieLine_clean {cookie : Cookie} (h : cookie.Readable) : Clean (cookieLine dates cookie) :=
  ⟨show HeadersStep.colon ∉ lit "Set-Cookie" by decide,
    show eol (lit "Set-Cookie") = false by decide, (h.write_line dates).1⟩

theorem cookies_cookieLine (hdate : registry.fullDate = dates.fromString) (cookie : Cookie)
    (jar : CookieJar) :
    HeadersStep.cookies registry (cookieLine dates cookie).1 (cookieLine dates cookie).2 jar =
      match Cookie.fromRaw dates.fromString (cookie.write dates) with
      | .ok cookie => (jar.add cookie, none)
      | .error e => (jar, some e) := by
  have hcookie : LowercaseEqualStatic (lit "Set-Cookie") (lit "cookie") = false := by decide
  have hset : LowercaseEqualStatic (lit "Set-Cookie") (lit "set-cookie") = true := by decide
  cases hraw : Cookie.fromRaw dates.fromString (cookie.write dates) with
  | ok c =>
    simp only [HeadersStep.cookies, cookieLine, hcookie, hset, if_true, hdate, hraw,
      Bool.false_eq_true, if_false]
  | error e =>
    simp only [HeadersStep.cookies, cookieLine, hcookie, hset, if_true, hdate, hraw,
      Bool.false_eq_true, if_false]

theorem typed_cookieLine (cookie : Cookie) :
    typed registry (cookieLine dates cookie).1 (cookieLine dates cookie).2 = none := rfl

theorem thrown_cookieLine (hdate : registry.fullDate = dates.fromString) {cookie : Cookie}
    (h : thrown registry (cookieLine dates cookie) = none) :
    Cookie.fromRaw dates.fromString (cookie.write dates) = .ok (cookieRead dates cookie) := by
  unfold thrown at h
  rw [cookies_cookieLine hdate] at h
  cases hread : Cookie.fromRaw dates.fromString (cookie.write dates) with
  | error e => simp [hread] at h
  | ok c => simp [cookieRead, hread]

/-- The lines of cookies that are read add one cookie each. -/
theorem foldl_cookieLines (hdate : registry.fullDate = dates.fromString) :
    ∀ {cs : List Cookie} (jar : CookieJar), (∀ c ∈ cs, c.Readable) →
      (∀ c ∈ cs, Cookie.fromRaw dates.fromString (c.write dates) = .ok (cookieRead dates c)) →
        ((cs.map (cookieLine dates)).map asRead).foldl
          (fun jar l => (HeadersStep.cookies registry l.1 l.2 jar).1) jar =
          applyAll (fun e l => insertNew e.1 e.2 l)
            (cs.map fun c => ((c.name, c.value), cookieRead dates c)) jar
  | [], _, _, _ => rfl
  | c :: cs, jar, hreadable, hread => by
    have hc := hread c List.mem_cons_self
    obtain ⟨hname, hvalue⟩ := Cookie.fromRaw_write_name (hreadable c List.mem_cons_self).plain hc
    rw [List.map_cons, List.map_cons, List.foldl_cons, List.map_cons, applyAll_cons,
      asRead_cookieLine (hreadable c List.mem_cons_self), cookies_cookieLine hdate, hc,
      foldl_cookieLines hdate _ (fun c' hc' => hreadable c' (List.mem_cons_of_mem c hc'))
        fun c' hc' => hread c' (List.mem_cons_of_mem c hc')]
    simp only [CookieJar.add, hname, hvalue]

end Cookies

/-! ## Responses that come back -/

theorem head_next (hfeed : (ResponseParser.new maxDataSize : ParserBase H Unit).feed (w.wire data) = some p)
    (hdone : (ResponseParser.parse classes.registry p).1 = .Done) : (w.head data).result = .Next := by
  by_contra hnext
  rw [(parse_wire hfeed).2 hnext] at hdone
  exact HeadersStep.apply_ne_done _ _ hdone

/-- The parser is done, with the whole message, and has the response: its code, its headers with
the `Content-Length` that `putOnWire` adds, no header of another name, its cookies and its
body. -/
structure ComesBack (w : ResponseWriter classes) (data : Bytes) (o : State × ParserBase H Unit) : Prop where
  done : o.1 = .Done
  consumed : o.2.buffer.unread = []
  code : o.2.message.code_ = w.response_.code_
  headers : SameTable o.2.message.headers_.headers
    (insertNew (lit "content-length") (.ContentLength (UInt64.ofNat data.length))
      w.response_.headers_.headers)
  names : ∀ key, (o.2.message.headers_.rawHeaders.lookup key).isSome ↔
    ∃ line ∈ w.lines data, line.1.map tolower = key
  cookies : SameTable o.2.message.cookies_ w.response_.cookies_
  body : o.2.message.body_ = data

/-- Every part of the response survives on its own. -/
structure Survives (w : ResponseWriter classes) (data : Bytes) : Prop where
  headers : ∀ e ∈ w.response_.headers_.headers, classes.Survives e.2
  contentLength : ∀ value, w.response_.headers_.contentLength = some value →
    value = UInt64.ofNat data.length
  transferEncoding : w.response_.headers_.transferEncoding = none
  cookies : ∀ e ∈ w.response_.cookies_, e.2.Readable ∧ e.2.ReadBack classes.dates

theorem mem_lines {line : Bytes × Bytes} : line ∈ w.lines data ↔
    (∃ e ∈ w.response_.headers_.headers, e.2.line classes = line) ∨
    (∃ e ∈ w.response_.cookies_, cookieLine classes.dates e.2 = line) ∨
    line = (TypedHeader.ContentLength (UInt64.ofNat data.length) : TypedHeader H).line classes := by
  simp [lines]

section Clean

variable (hclean : ∀ l ∈ w.lines data, Clean l)
  (hthrown : ∀ l ∈ w.lines data, thrown classes.registry (asRead l) = none)

include hclean hthrown

theorem head_lines : w.head data = ⟨.Next, { w.lineRead with
    toMessage := applyAll (update classes.registry) ((w.lines data).map asRead) w.lineRead.toMessage },
    data⟩ := HeadersStep.apply_lines w.lineRead hclean hthrown data

theorem head_headers (key : Bytes) : (w.head data).state.headers_.headers.lookup key =
    (((w.lines data).map asRead).filterMap (typedEntry classes.registry)).lookup key := by
  rw [head_lines hclean hthrown]
  dsimp only
  rw [HeadersStep.applyAll_update_headers, lookup_applyAll_insertNew]
  rfl

theorem head_names (key : Bytes) : ((w.head data).state.headers_.rawHeaders.lookup key).isSome ↔
    ∃ line ∈ w.lines data, line.1.map tolower = key := by
  have hraw : ∀ l ∈ (w.lines data).map asRead,
      rawEntry classes.registry l = some (l.1.map tolower, ⟨l.1, l.2⟩) := by
    intro l hl
    obtain ⟨l', hl', rfl⟩ := List.mem_map.mp hl
    simp [rawEntry, hthrown l' hl']
  rw [head_lines hclean hthrown]
  dsimp only
  rw [HeadersStep.applyAll_update_rawHeaders, lookup_applyAll_insertNew]
  have hnil : (w.lineRead.headers_.rawHeaders.lookup key : Option Raw) = none := rfl
  rw [hnil, Option.none_or, Option.isSome_iff_ne_none, ne_eq, List.lookup_eq_none_iff]
  push Not
  constructor
  · rintro ⟨e, he, hkey⟩
    obtain ⟨l, hl, hentry⟩ := List.mem_filterMap.mp he
    rw [hraw l hl] at hentry
    obtain ⟨l', hl', rfl⟩ := List.mem_map.mp hl
    cases hentry
    have hsame : key = (asRead l').1.map tolower := by simpa using hkey
    exact ⟨l', hl', hsame.symm⟩
  · rintro ⟨line, hl, rfl⟩
    have hmem := List.mem_map_of_mem (f := asRead) hl
    exact ⟨_, List.mem_filterMap.mpr ⟨_, hmem, hraw _ hmem⟩, by simp [asRead]⟩

end Clean

/-! ### What survives comes back -/

/-- A header that survives is a typed entry. -/
theorem survives_entry {e : Bytes × TypedHeader H} (he : e ∈ w.response_.headers_.headers)
    (h : classes.Survives e.2) :
    typedEntry classes.registry (asRead (e.2.line classes)) = some e := by
  rw [HeadersStep.typedEntry_of_typed h.read]
  have hname : e.1 = (e.2.name classes).map tolower := w.headers_named e he
  exact congrArg some (Prod.ext hname.symm rfl)

/-- The jar behind the head, when no header stands under the name of a cookie. -/
theorem head_cookies (hclean : ∀ l ∈ w.lines data, Clean l)
    (hthrown : ∀ l ∈ w.lines data, thrown classes.registry (asRead l) = none)
    (hnot : ∀ e ∈ w.response_.headers_.headers,
      HeadersStep.isCookieHeader (asRead (e.2.line classes)).1 = false)
    (hreadable : ∀ e ∈ w.response_.cookies_, e.2.Readable) (key : Bytes × Bytes) :
    (w.head data).state.cookies_.lookup key =
      (w.response_.cookies_.map
        fun e => ((e.2.name, e.2.value), cookieRead classes.dates e.2)).lookup key := by
  have hheaders : ∀ (es : List (Bytes × TypedHeader H)) (jar : CookieJar),
      (∀ e ∈ es, HeadersStep.isCookieHeader (asRead (e.2.line classes)).1 = false) →
        (((es.map Prod.snd).map (TypedHeader.line classes)).map asRead).foldl
          (fun jar l => (HeadersStep.cookies classes.registry l.1 l.2 jar).1) jar = jar := by
    intro es jar hnot
    induction es with
    | nil => rfl
    | cons e es ih =>
      rw [List.map_cons, List.map_cons, List.map_cons, List.foldl_cons,
        HeadersStep.cookies_other (hnot e List.mem_cons_self)]
      exact ih fun e' he' => hnot e' (List.mem_cons_of_mem e he')
  have hread : ∀ c ∈ w.response_.cookies_.map Prod.snd,
      Cookie.fromRaw classes.dates.fromString (c.write classes.dates) =
        .ok (cookieRead classes.dates c) := by
    intro c hc
    obtain ⟨e, he, rfl⟩ := List.mem_map.mp hc
    have hline := hthrown _ (mem_lines.mpr (.inr (.inl ⟨e, he, rfl⟩)))
    rw [asRead_cookieLine (hreadable e he)] at hline
    exact thrown_cookieLine rfl hline
  have hdate : classes.registry.fullDate = classes.dates.fromString := rfl
  have hfold := foldl_cookieLines hdate []
    (fun c hc => by
      obtain ⟨e, he, rfl⟩ := List.mem_map.mp hc
      exact hreadable e he)
    hread
  have hnil : (w.lineRead.cookies_ : CookieJar) = [] := rfl
  rw [head_lines hclean hthrown]
  dsimp only
  rw [HeadersStep.applyAll_update_cookies, lines, List.map_append, List.map_append,
    List.foldl_append, List.foldl_append, hheaders _ _ hnot, hnil, hfold, List.map_singleton,
    List.foldl_cons, List.foldl_nil,
    HeadersStep.cookies_other (HeadersStep.not_cookie_of_typed (Classes.contentLength_survives _).read),
    lookup_applyAll_insertNew, List.map_map]
  rfl

section Survives

variable (hs : w.Survives data)

include hs

theorem Survives.clean : ∀ l ∈ w.lines data, Clean l := by
  intro l hl
  rcases mem_lines.mp hl with ⟨e, he, rfl⟩ | ⟨e, he, rfl⟩ | rfl
  · exact (hs.headers e he).clean
  · exact cookieLine_clean (hs.cookies e he).1
  · exact (Classes.contentLength_survives _).clean

theorem Survives.readBack {e : (Bytes × Bytes) × Cookie} (he : e ∈ w.response_.cookies_) :
    Cookie.fromRaw classes.dates.fromString (e.2.write classes.dates) = .ok e.2 ∧
      cookieRead classes.dates e.2 = e.2 := by
  have hread := (Cookie.fromRaw_write_iff (hs.cookies e he).1.plain).mpr (hs.cookies e he).2
  exact ⟨hread, by rw [cookieRead, hread]⟩

theorem Survives.thrown : ∀ l ∈ w.lines data, thrown classes.registry (asRead l) = none := by
  intro l hl
  rcases mem_lines.mp hl with ⟨e, he, rfl⟩ | ⟨e, he, rfl⟩ | rfl
  · exact HeadersStep.thrown_of_typed (hs.headers e he).read
  · rw [asRead_cookieLine (hs.cookies e he).1]
    unfold HeadersStep.thrown
    rw [cookies_cookieLine rfl, (hs.readBack he).1, typed_cookieLine]
  · exact HeadersStep.thrown_of_typed (Classes.contentLength_survives _).read

theorem Survives.headers_same : SameTable (w.head data).state.headers_.headers
    (insertNew (lit "content-length") (.ContentLength (UInt64.ofNat data.length))
      w.response_.headers_.headers) := by
  intro key
  have hheaders : (((w.response_.headers_.headers.map Prod.snd).map (TypedHeader.line classes)).map
      asRead).filterMap (typedEntry classes.registry) = w.response_.headers_.headers := by
    rw [List.map_map, List.map_map, List.filterMap_map]
    calc w.response_.headers_.headers.filterMap _
        = w.response_.headers_.headers.filterMap some :=
          List.filterMap_congr fun e he => survives_entry he (hs.headers e he)
      _ = w.response_.headers_.headers := List.filterMap_some
  have hcookies : (((w.response_.cookies_.map Prod.snd).map (cookieLine classes.dates)).map
      asRead).filterMap (typedEntry classes.registry) = [] := by
    rw [List.filterMap_eq_nil_iff]
    intro l hl
    simp only [List.map_map, List.mem_map] at hl
    obtain ⟨e, he, rfl⟩ := hl
    refine Option.eq_none_iff_forall_not_mem.mpr fun entry hentry => ?_
    have htyped := (HeadersStep.typedEntry_some hentry).2
    rw [Function.comp_apply, Function.comp_apply, asRead_cookieLine (hs.cookies e he).1,
      typed_cookieLine] at htyped
    cases htyped
  have hlength : typedEntry classes.registry
      (asRead ((TypedHeader.ContentLength (UInt64.ofNat data.length) : TypedHeader H).line classes)) =
        some (lit "content-length", .ContentLength (UInt64.ofNat data.length)) := by
    rw [HeadersStep.typedEntry_of_typed (Classes.contentLength_survives _).read]
    rfl
  rw [head_headers hs.clean hs.thrown, lines, List.map_append, List.map_append, List.filterMap_append,
    List.filterMap_append, hheaders, hcookies, List.append_nil, List.map_singleton,
    List.filterMap_cons, hlength, List.filterMap_nil, List.lookup_append, lookup_insertNew,
    List.lookup_cons, List.lookup_nil]
  cases key == lit "content-length" <;> rfl

theorem Survives.cookies_same : SameTable (w.head data).state.cookies_ w.response_.cookies_ := by
  have hentries : w.response_.cookies_.map
      (fun e => ((e.2.name, e.2.value), cookieRead classes.dates e.2)) = w.response_.cookies_ :=
    calc w.response_.cookies_.map _
        = w.response_.cookies_.map id := List.map_congr_left fun e he =>
          Prod.ext (w.cookies_named e he).symm (hs.readBack he).2
      _ = w.response_.cookies_ := List.map_id _
  intro key
  rw [head_cookies hs.clean hs.thrown (fun e he => HeadersStep.not_cookie_of_typed (hs.headers e he).read)
    (fun e he => (hs.cookies e he).1), hentries]

omit hs in
/-- The length that the parser finds, when it finds the headers of the response. -/
theorem contentLength_of_same {coll : Header.Collection H} (hsame : SameTable coll.headers
      (insertNew (lit "content-length") (.ContentLength (UInt64.ofNat data.length))
        w.response_.headers_.headers)) :
    coll.contentLength =
      match w.response_.headers_.headers.lookup (lit "content-length") with
      | none => some (UInt64.ofNat data.length)
      | some _ => w.response_.headers_.contentLength := by
  have hkey := hsame (lit "content-length")
  rw [lookup_insertNew] at hkey
  unfold Header.Collection.contentLength
  rw [hkey]
  cases w.response_.headers_.headers.lookup (lit "content-length") with
  | none => simp
  | some header => rfl

omit hs in
theorem transferEncoding_of_same {coll : Header.Collection H} (hsame : SameTable coll.headers
      (insertNew (lit "content-length") (.ContentLength (UInt64.ofNat data.length))
        w.response_.headers_.headers)) :
    coll.transferEncoding = w.response_.headers_.transferEncoding := by
  have hkey := hsame (lit "transfer-encoding")
  have hne : (lit "transfer-encoding" == lit "content-length") = false := by decide
  rw [lookup_insertNew, hne] at hkey
  unfold Header.Collection.transferEncoding
  rw [hkey]
  simp

theorem Survives.comesBack (hlt : data.length < 2 ^ 64)
    (hfeed : (ResponseParser.new maxDataSize : ParserBase H Unit).feed (w.wire data) = some p) :
    ComesBack w data (ResponseParser.parse classes.registry p) := by
  have hhead := head_lines hs.clean hs.thrown
  have hnext : (w.head data).result = .Next := by rw [hhead]
  have hrest : (w.head data).rest = data := by rw [hhead]
  have hlength : (w.head data).state.headers_.contentLength = some (UInt64.ofNat data.length) := by
    rw [contentLength_of_same hs.headers_same]
    cases hown : w.response_.headers_.headers.lookup (lit "content-length") with
    | none => rfl
    | some header =>
      obtain ⟨front, back, hsplit, -⟩ := List.lookup_eq_some_iff.mp hown
      have hmem : (lit "content-length", header) ∈ w.response_.headers_.headers := by
        rw [hsplit]
        simp
      obtain ⟨n, rfl⟩ := HeadersStep.contentLength_of_typed (w.headers_named _ hmem).symm (hs.headers _ hmem).read
      have hsome : w.response_.headers_.contentLength = some n := by
        simp [Header.Collection.contentLength, hown]
      rw [hsome, hs.contentLength n hsome]
  have hencoding : (w.head data).state.headers_.transferEncoding = none := by
    rw [transferEncoding_of_same hs.headers_same, hs.transferEncoding]
  have hnat : (UInt64.ofNat data.length).toNat = data.length := by
    rw [UInt64.toNat_ofNat', Nat.mod_eq_of_lt hlt]
  have hbody : w.body data = ⟨.Done, ({}, (w.head data).state.toMessage.append data), []⟩ := by
    rw [body, BodyStep.apply_declared hlength hencoding, hrest, hnat, if_neg (Nat.lt_irrefl _),
      List.take_length, List.drop_length]
  obtain ⟨hdone, hmessage, hunread⟩ := (parse_wire hfeed).1 hnext
  have hstate := @HeadersStep.applyAll_update_rest H classes.registry
    ((w.lines data).map asRead) w.lineRead.toMessage
  refine ⟨by rw [hdone, hbody], by rw [hunread, hbody], ?_, ?_, ?_, ?_, ?_⟩
  · rw [hmessage, hbody]
    change (w.head data).state.code_ = _
    rw [hhead]
    exact hstate.1
  · rw [hmessage, hbody]
    exact hs.headers_same
  · rw [hmessage, hbody]
    exact head_names hs.clean hs.thrown
  · rw [hmessage, hbody]
    exact hs.cookies_same
  · rw [hmessage, hbody]
    change (w.head data).state.body_ ++ data = data
    rw [hhead]
    change (applyAll (update classes.registry) ((w.lines data).map asRead)
      w.lineRead.toMessage).body_ ++ data = data
    rw [hstate.2]
    rfl

end Survives

/-! ### What comes back survives -/

/-- Names that differ in case only have the same separators. -/
theorem clean_of_lower {name name' : Bytes} (hname : name.map tolower = name'.map tolower)
    (hcolon : HeadersStep.colon ∉ name) (heol : eol name = false) :
    HeadersStep.colon ∉ name' ∧ eol name' = false := by
  constructor
  · intro hin
    have hmem : HeadersStep.colon ∈ name.map tolower := by
      rw [hname]
      exact List.mem_map.mpr ⟨_, hin, by decide⟩
    obtain ⟨c, hc, hlow⟩ := List.mem_map.mp hmem
    exact hcolon (tolower_eq (by decide) hlow ▸ hc)
  · rw [Bool.eq_false_iff]
    intro hname'
    obtain ⟨rest, rfl⟩ := eol_iff.mp hname'
    match name, hname, heol with
    | [], hname, _ => cases hname
    | [c], hname, _ => simp at hname
    | c :: d :: name, hname, heol =>
      simp only [List.map_cons, List.cons.injEq] at hname
      have hc : c = CR := tolower_eq (by decide) hname.1
      have hd : d = LF := tolower_eq (by decide) hname.2.1
      subst hc hd
      simp at heol

theorem filterMap_keys_sublist {α β γ : Type} {f : α × β → Option (α × γ)} :
    ∀ {es : List (α × β)}, (∀ e ∈ es, ∀ x, f e = some x → x.1 = e.1) →
      ((es.filterMap f).map Prod.fst).Sublist (es.map Prod.fst)
  | [], _ => List.Sublist.refl _
  | e :: es, h => by
    have ih := filterMap_keys_sublist fun e' he' => h e' (List.mem_cons_of_mem e he')
    rw [List.filterMap_cons]
    cases hf : f e with
    | none => exact ih.trans (List.sublist_cons_self _ _)
    | some x =>
      rw [List.map_cons, List.map_cons, h e List.mem_cons_self x hf]
      exact ih.cons_cons _

section Back

variable (hfeed : (ResponseParser.new maxDataSize : ParserBase H Unit).feed (w.wire data) = some p)
  (hback : ComesBack w data (ResponseParser.parse classes.registry p))

include hfeed hback

/-- The headers of the message are those behind the head. -/
theorem head_same : SameTable (w.head data).state.headers_.headers
    (insertNew (lit "content-length") (.ContentLength (UInt64.ofNat data.length))
      w.response_.headers_.headers) := by
  have hmessage := ((parse_wire hfeed).1 (head_next hfeed hback.done)).2.1
  have hkeeps : (w.body data).state.2.headers_ = (w.head data).state.headers_ :=
    BodyStep.apply_headers _ _
  rw [← hkeeps, ← hmessage]
  exact hback.headers

omit hfeed hback in
/-- A header of the message has been read from a line. -/
theorem header_line {key : Bytes} {header : TypedHeader H}
    (h : (w.head data).state.headers_.headers.lookup key = some header) :
    ∃ l, IsLine l ∧ l.1.map tolower = key ∧ typed classes.registry l.1 l.2 = some (.ok header) := by
  obtain ⟨ls, hls, hstate, -⟩ := HeadersStep.exists_lines classes.registry w.lineRead
    ((w.lines data).flatMap lineText ++ CR :: LF :: data)
  have hheaders : (w.head data).state.headers_.headers =
      applyAll (fun e l => insertNew e.1 e.2 l) (ls.filterMap (typedEntry classes.registry)) [] := by
    unfold head
    rw [hstate]
    exact HeadersStep.applyAll_update_headers ls w.lineRead.toMessage
  rw [hheaders, lookup_applyAll_insertNew, List.lookup_nil, Option.none_or] at h
  obtain ⟨front, back, hsplit, -⟩ := List.lookup_eq_some_iff.mp h
  have hmem : (key, header) ∈ ls.filterMap (typedEntry classes.registry) := by
    rw [hsplit]
    simp
  obtain ⟨l, hl, hentry⟩ := List.mem_filterMap.mp hmem
  obtain ⟨hkey, htyped⟩ := HeadersStep.typedEntry_some hentry
  exact ⟨l, hls l hl, hkey.symm, htyped⟩

/-- The headers of the response are among them. -/
theorem header_found {e : Bytes × TypedHeader H} (he : e ∈ w.response_.headers_.headers) :
    (w.head data).state.headers_.headers.lookup e.1 = some e.2 := by
  rw [head_same hfeed hback, lookup_insertNew, lookup_of_mem w.headers_nodup he]
  rfl

/-- The body has a declared length. -/
theorem head_length : ∃ n, (w.head data).state.headers_.contentLength = some n := by
  have hkey := head_same hfeed hback (lit "content-length")
  rw [lookup_insertNew] at hkey
  obtain ⟨header, hheader⟩ : ∃ header,
      (w.head data).state.headers_.headers.lookup (lit "content-length") = some header := by
    rw [hkey]
    cases w.response_.headers_.headers.lookup (lit "content-length") with
    | none => exact ⟨.ContentLength (UInt64.ofNat data.length), by simp⟩
    | some header => exact ⟨header, rfl⟩
  obtain ⟨l, -, hname, htyped⟩ := header_line hheader
  obtain ⟨n, rfl⟩ := HeadersStep.contentLength_of_typed hname htyped
  exact ⟨n, by simp [Header.Collection.contentLength, hheader]⟩

theorem head_encoding : (w.head data).state.headers_.transferEncoding = none := by
  obtain ⟨n, hlength⟩ := head_length hfeed hback
  by_contra hsome
  obtain ⟨te, hte⟩ := Option.ne_none_iff_exists'.mp hsome
  have hdone := hback.done
  rw [((parse_wire hfeed).1 (head_next hfeed hback.done)).1, body, BodyStep.apply] at hdone
  simp [hlength, hte] at hdone

theorem body_eq {n : UInt64} (hlength : (w.head data).state.headers_.contentLength = some n) :
    ¬(w.head data).rest.length < n.toNat ∧
      w.body data = ⟨.Done, ({}, (w.head data).state.toMessage.append ((w.head data).rest.take n.toNat)),
        (w.head data).rest.drop n.toNat⟩ := by
  have hbody : w.body data = _ := BodyStep.apply_declared hlength (head_encoding hfeed hback) (w.head data).rest
  have hdone := hback.done
  rw [((parse_wire hfeed).1 (head_next hfeed hback.done)).1, hbody] at hdone
  by_cases hlt : (w.head data).rest.length < n.toNat
  · rw [if_pos hlt] at hdone
    cases hdone
  · rw [if_neg hlt] at hbody
    exact ⟨hlt, hbody⟩

/-- So are the cookies of the response. -/
theorem cookie_found {e : (Bytes × Bytes) × Cookie} (he : e ∈ w.response_.cookies_) :
    (w.head data).state.cookies_.lookup e.1 = some e.2 := by
  obtain ⟨n, hlength⟩ := head_length hfeed hback
  have hcookies := hback.cookies e.1
  rw [((parse_wire hfeed).1 (head_next hfeed hback.done)).2.1, (body_eq hfeed hback hlength).2,
    lookup_of_mem w.cookies_nodup he] at hcookies
  exact hcookies

theorem cookie_readable {e : (Bytes × Bytes) × Cookie} (he : e ∈ w.response_.cookies_) :
    e.2.Readable := by
  obtain ⟨ls, hls, hstate, -⟩ := HeadersStep.exists_lines classes.registry w.lineRead
    ((w.lines data).flatMap lineText ++ CR :: LF :: data)
  have hjar : CookieJar.Readable (w.head data).state.cookies_ := by
    unfold head
    rw [hstate]
    change CookieJar.Readable (applyAll (update classes.registry) ls w.lineRead.toMessage).cookies_
    rw [HeadersStep.applyAll_update_cookies]
    exact HeadersStep.foldl_cookies_readable hls fun e he => nomatch he
  obtain ⟨front, back, hsplit, -⟩ := List.lookup_eq_some_iff.mp (cookie_found hfeed hback he)
  exact (hjar (e.1, e.2) (by rw [hsplit]; simp)).2

theorem back_clean : ∀ l ∈ w.lines data, Clean l := by
  intro l hl
  rcases mem_lines.mp hl with ⟨e, he, rfl⟩ | ⟨e, he, rfl⟩ | rfl
  · obtain ⟨l, hline, hname, htyped⟩ := header_line (header_found hfeed hback he)
    rw [w.headers_named e he] at hname
    obtain ⟨hcolon, heol⟩ := clean_of_lower hname hline.colon hline.eol
    exact ⟨hcolon, heol, Classes.typed_oneLine htyped hline.oneLine⟩
  · exact cookieLine_clean (cookie_readable hfeed hback he)
  · exact (Classes.contentLength_survives _).clean

theorem back_thrown : ∀ l ∈ w.lines data, thrown classes.registry (asRead l) = none :=
  HeadersStep.apply_lines_next (back_clean hfeed hback) (head_next hfeed hback.done)

/-- A header of the response is read for itself. -/
theorem back_header {e : Bytes × TypedHeader H} (he : e ∈ w.response_.headers_.headers) :
    classes.Survives e.2 := by
  have hclean := back_clean hfeed hback
  have hthrown := back_thrown hfeed hback
  have hline : e.2.line classes ∈ w.lines data := mem_lines.mpr (.inl ⟨e, he, rfl⟩)
  have hfound := header_found hfeed hback he
  obtain ⟨l, -, hname, htyped⟩ := header_line hfound
  have hnamed := w.headers_named e he
  have hsome : typed classes.registry (asRead (e.2.line classes)).1 (asRead (e.2.line classes)).2 ≠
      none := by
    intro hnone
    rw [HeadersStep.typed_none (hnamed.symm.trans hname.symm) hnone]
      at htyped
    cases htyped
  obtain ⟨result, hresult⟩ := Option.ne_none_iff_exists'.mp hsome
  have hread : ∃ header, typed classes.registry (asRead (e.2.line classes)).1
      (asRead (e.2.line classes)).2 = some (.ok header) := by
    cases result with
    | ok header => exact ⟨header, hresult⟩
    | error exn =>
      exfalso
      have hnone := hthrown _ hline
      have hcookie := HeadersStep.not_cookie_of_typed hresult
      simp [thrown, HeadersStep.cookies_other hcookie, hresult] at hnone
  obtain ⟨header, hread⟩ := hread
  -- its entry is the first one of its name
  let entries := w.response_.headers_.headers.filterMap fun e =>
    typedEntry classes.registry (asRead (e.2.line classes))
  have hkeys : ∀ e ∈ w.response_.headers_.headers, ∀ x,
      typedEntry classes.registry (asRead (e.2.line classes)) = some x → x.1 = e.1 := by
    intro e he x hx
    rw [(HeadersStep.typedEntry_some hx).1, w.headers_named e he]
    rfl
  have hnodup : (entries.map Prod.fst).Nodup :=
    w.headers_nodup.sublist (filterMap_keys_sublist hkeys)
  have hmem : (e.1, header) ∈ entries := by
    refine List.mem_filterMap.mpr ⟨e, he, ?_⟩
    rw [HeadersStep.typedEntry_of_typed hread, hnamed]
    rfl
  rw [head_headers hclean hthrown, lines, List.map_append, List.map_append, List.filterMap_append,
    List.filterMap_append, List.append_assoc, List.lookup_append, List.map_map, List.map_map,
    List.filterMap_map] at hfound
  have hfirst : entries.lookup e.1 = some header := lookup_of_mem hnodup hmem
  change (entries.lookup e.1).or _ = some e.2 at hfound
  rw [hfirst, Option.some_or, Option.some.injEq] at hfound
  exact ⟨hclean _ hline, hfound ▸ hread⟩

theorem back_cookie {e : (Bytes × Bytes) × Cookie} (he : e ∈ w.response_.cookies_) :
    e.2.Readable ∧ e.2.ReadBack classes.dates := by
  have hthrown := back_thrown hfeed hback
  have hreadable := fun e he => cookie_readable (e := e) hfeed hback he
  refine ⟨hreadable e he, (Cookie.fromRaw_write_iff (hreadable e he).plain).mp ?_⟩
  have hline := hthrown _ (mem_lines.mpr (.inr (.inl ⟨e, he, rfl⟩)))
  rw [asRead_cookieLine (hreadable e he)] at hline
  have hread := thrown_cookieLine rfl hline
  have hfound := cookie_found hfeed hback he
  rw [head_cookies (back_clean hfeed hback) hthrown
    (fun e he => HeadersStep.not_cookie_of_typed (back_header hfeed hback he).read) hreadable] at hfound
  have hkeys : (w.response_.cookies_.map
      fun e => ((e.2.name, e.2.value), cookieRead classes.dates e.2)).map Prod.fst =
        w.response_.cookies_.map Prod.fst := by
    rw [List.map_map]
    exact List.map_congr_left fun e he => (w.cookies_named e he).symm
  have hmem : (e.1, cookieRead classes.dates e.2) ∈ w.response_.cookies_.map
      fun e => ((e.2.name, e.2.value), cookieRead classes.dates e.2) :=
    List.mem_map.mpr ⟨e, he, Prod.ext (w.cookies_named e he).symm rfl⟩
  rw [lookup_of_mem (hkeys ▸ w.cookies_nodup) hmem, Option.some.injEq] at hfound
  rw [hread, hfound]

theorem back_survives : w.Survives data where
  headers e he := back_header hfeed hback he
  contentLength n hn := by
    have hlength : (w.head data).state.headers_.contentLength = some n := by
      rw [contentLength_of_same (head_same hfeed hback)]
      cases hown : w.response_.headers_.headers.lookup (lit "content-length") with
      | none => simp [Header.Collection.contentLength, hown] at hn
      | some header => exact hn
    obtain ⟨hle, hbody⟩ := body_eq hfeed hback hlength
    have hrest : (w.head data).rest = data := by
      rw [head_lines (back_clean hfeed hback) (back_thrown hfeed hback)]
    have hconsumed := hback.consumed
    rw [((parse_wire hfeed).1 (head_next hfeed hback.done)).2.2, hbody, hrest] at hconsumed
    rw [hrest] at hle
    have hge : data.length ≤ n.toNat := List.drop_eq_nil_iff.mp hconsumed
    have heq : n.toNat = data.length := by omega
    rw [← heq, UInt64.ofNat_toNat]
  transferEncoding := by
    rw [← transferEncoding_of_same (head_same hfeed hback)]
    exact head_encoding hfeed hback
  cookies e he := back_cookie hfeed hback he

end Back

/-- **Responses that come back.**  When `putOnWire` does not report an error, the parser makes
the response of the bytes again if and only if each of its parts survives on its own. -/
theorem comesBack_iff (w : ResponseWriter classes) (data : Bytes) (thrown : Option Exn)
    {bytes : Bytes} (hput : w.putOnWire data thrown = .ok bytes) {maxDataSize : Nat}
    {p : ParserBase H Unit}
    (hfeed : (ResponseParser.new maxDataSize : ParserBase H Unit).feed bytes = some p) :
    ComesBack w data (ResponseParser.parse classes.registry p) ↔ w.Survives data := by
  rw [putOnWire_eq] at hput
  split at hput
  · rename_i hfits
    have hbytes : bytes = w.wire data := by
      cases thrown with
      | none =>
        cases hput
        rfl
      | some e => cases hput
    subst hbytes
    have hlt : data.length < 2 ^ 64 := by
      have hwire : data.length ≤ (w.wire data).length := by
        simp only [wire, List.length_append]
        omega
      exact (hwire.trans hfits).trans_lt w.maxResponseSize_lt
    exact ⟨fun hback => back_survives hfeed hback, fun hs => hs.comesBack hlt hfeed⟩
  · cases hput

/-- A response with a header and a cookie. -/
def greeting : ResponseWriter (Header.classes Classes.none []) :=
  (((new .Http11 4096 (by decide)).setCode ⟨200⟩ (by decide)).addHeader
    (.other (.text .Location (lit "/a b")))).addCookie
      { Cookie.new (lit "n") (lit "v") with path := some (lit "/"), maxAge := some 60, secure := true }

theorem greeting_survives : greeting.Survives (lit "hello") where
  headers e he := by
    have hheaders : greeting.response_.headers_.headers =
        [(lit "location", .other (.text .Location (lit "/a b")))] := rfl
    rw [hheaders, List.mem_singleton] at he
    subst he
    exact (Header.text_survives_iff (fun name h => by cases h) _).mpr (by decide)
  contentLength n hn := nomatch hn
  transferEncoding := rfl
  cookies e he := by
    have hcookies : greeting.response_.cookies_ =
        [((lit "n", lit "v"), { Cookie.new (lit "n") (lit "v") with
          path := some (lit "/"), maxAge := some 60, secure := true })] := rfl
    rw [hcookies, List.mem_singleton] at he
    subst he
    constructor
    · exact
        { name_equals := by decide
          name_space := by decide
          name_oneLine := by decide
          value := by decide
          path := fun text ht => by
            obtain rfl : lit "/" = text := by simpa using ht
            decide
          domain := fun text ht => nomatch ht
          extName := fun e he => nomatch he
          extValue := fun e he => nomatch he }
    · exact
        { maxAge := fun n hn => by
            obtain rfl : (60 : Int32) = n := by simpa using hn
            decide
          expires := fun date hd => nomatch hd
          ext := by decide }

def greetingBytes : Bytes :=
  lit "HTTP/1.1 200 OK\r\nLocation: /a b\r\nSet-Cookie: n=v; Path=/; Max-Age=60; Secure\r\n" ++
    lit "Content-Length: 5\r\n\r\nhello"

set_option maxRecDepth 2000 in
theorem greeting_comesBack : ComesBack greeting (lit "hello")
    (ResponseParser.parse (Header.classes Classes.none []).registry
      { (ResponseParser.new 4096 : ParserBase (Header.Class Empty) Unit) with
        buffer := ⟨[], greetingBytes, 4096⟩ }) := by
  have hput : greeting.putOnWire (lit "hello") none = .ok greetingBytes := rfl
  have hfeed : (ResponseParser.new 4096 : ParserBase (Header.Class Empty) Unit).feed greetingBytes =
      some { (ResponseParser.new 4096 : ParserBase (Header.Class Empty) Unit) with
        buffer := ⟨[], greetingBytes, 4096⟩ } := rfl
  exact (comesBack_iff greeting (lit "hello") none hput hfeed).mpr greeting_survives

/-- A redirection to a text with a CRLF in it. -/
def redirection : ResponseWriter (Header.classes Classes.none []) :=
  ((new .Http11 4096 (by decide)).setCode ⟨302⟩ (by decide)).addHeader
    (.other (.text .Location (lit "/\r\nSet-Cookie: a=b")))

/-- **A header value adds a cookie.** -/
theorem location_injects : ∃ p : ParserBase (Header.Class Empty) Unit,
    redirection.putOnWire [] none =
      .ok (lit "HTTP/1.1 302 Found\r\nLocation: /\r\nSet-Cookie: a=b\r\nContent-Length: 0\r\n\r\n") ∧
    (ResponseParser.new 4096 : ParserBase (Header.Class Empty) Unit).feed
      (lit "HTTP/1.1 302 Found\r\nLocation: /\r\nSet-Cookie: a=b\r\nContent-Length: 0\r\n\r\n") = some p ∧
    (ResponseParser.parse (Header.classes Classes.none []).registry p).1 = .Done ∧
    ¬ComesBack redirection [] (ResponseParser.parse (Header.classes Classes.none []).registry p) := by
  refine ⟨_, rfl, rfl, rfl, fun h => ?_⟩
  have hcookie := h.cookies (lit "a", lit "b")
  have hread : ((ResponseParser.parse (Header.classes Classes.none []).registry
      { (ResponseParser.new 4096 : ParserBase (Header.Class Empty) Unit) with
        buffer := ⟨[], lit "HTTP/1.1 302 Found\r\nLocation: /\r\nSet-Cookie: a=b\r\nContent-Length: 0\r\n\r\n",
          4096⟩ }).2.message.cookies_.lookup (lit "a", lit "b")).isSome = true := by
    decide
  have hnone : (redirection.response_.cookies_.lookup (lit "a", lit "b")).isSome = false := rfl
  rw [← hcookie] at hnone
  exact absurd (hread.symm.trans hnone) (by decide)

end ResponseWriter

end Pistache.Http
