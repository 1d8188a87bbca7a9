import Pistache.Http.Chunked
import Pistache.Http.HeaderClasses

/-!
# The response writer

`ResponseWriter` with what a handler can do to its response, and `putOnWire`.  A writer carries
what its tables keep: a header stands under its lowered name, a cookie under its name and value.
Every function that writes has a `std::ostream` of its own over the buffer, and `putOnWire`
looks at its own one only; that a header did not fit shows in what is written behind it.

* `ResponseWriter.putOnWire_eq` — the message goes out whole, or not at all.
-/

set_option autoImplicit false

namespace Pistache.Http

open Replay
open Chunked (crlf)

variable {H : Type} {classes : Classes H}

/-! ## Codes and versions -/

/-- `STATUS_CODES`. -/
def statusCodes : List (Int × Bytes) :=
  [(100, lit "Continue"), (101, lit "Switching Protocols"), (102, lit "Processing"),
    (103, lit "Early Hints"), (200, lit "OK"), (201, lit "Created"), (202, lit "Accepted"),
    (203, lit "Non-Authoritative Information"), (204, lit "No Content"),
    (205, lit "Reset Content"), (206, lit "Partial Content"), (207, lit "Multi-Status"),
    (208, lit "Already Reported"), (226, lit "IM Used"), (300, lit "Multiple Choices"),
    (301, lit "Moved Permanently"), (302, lit "Found"), (303, lit "See Other"),
    (304, lit "Not Modified"), (305, lit "Use Proxy"), (307, lit "Temporary Redirect"),
    (308, lit "Permanent Redirect"), (400, lit "Bad Request"), (401, lit "Unauthorized"),
    (402, lit "Payment Required"), (403, lit "Forbidden"), (404, lit "Not Found"),
    (405, lit "Method Not Allowed"), (406, lit "Not Acceptable"),
    (407, lit "Proxy Authentication Required"), (408, lit "Request Timeout"),
    (409, lit "Conflict"), (410, lit "Gone"), (411, lit "Length Required"),
    (412, lit "Precondition Failed"), (413, lit "Request Entity Too Large"),
    (414, lit "Request-URI Too Long"), (415, lit "Unsupported Media Type"),
    (416, lit "Requested Range Not Satisfiable"), (417, lit "Expectation Failed"),
    (418, lit "I'm a teapot"), (421, lit "Misdirected Request"), (422, lit "Unprocessable Entity"),
    (423, lit "Locked"), (424, lit "Failed Dependency"), (426, lit "Upgrade Required"),
    (428, lit "Precondition Required"), (429, lit "Too Many Requests"),
    (431, lit "Request Header Fields Too Large"), (444, lit "Connection Closed Without Response"),
    (451, lit "Unavailable For Legal Reasons"), (499, lit "Client Closed Request"),
    (500, lit "Internal Server Error"), (501, lit "Not Implemented"), (502, lit "Bad Gateway"),
    (503, lit "Service Unavailable"), (504, lit "Gateway Timeout"),
    (505, lit "HTTP Version Not Supported"), (506, lit "Variant Also Negotiates"),
    (507, lit "Insufficient Storage"), (508, lit "Loop Detected"), (510, lit "Not Extended"),
    (511, lit "Network Authentication Required"), (599, lit "Network Connect Timeout Error")]

def codeString (code : Code) : Bytes := (statusCodes.lookup code.value).getD []

def versionString : Version → Bytes
  | .Http10 => lit "HTTP/1.0"
  | .Http11 => lit "HTTP/1.1"

/-! ## The writer -/

/-- `ResponseWriter` in front of `putOnWire`: the response, and the size its buffer may grow
to. -/
structure ResponseWriter (classes : Classes H) where
  response_ : Response H
  maxResponseSize : Nat
  maxResponseSize_lt : maxResponseSize < 2 ^ 64
  code_int : -(2 ^ 31) ≤ response_.code_.value ∧ response_.code_.value < 2 ^ 31
  headers_named : ∀ e ∈ response_.headers_.headers, e.1 = (e.2.name classes).map tolower
  headers_nodup : (response_.headers_.headers.map Prod.fst).Nodup
  cookies_named : ∀ e ∈ response_.cookies_, e.1 = (e.2.name, e.2.value)
  cookies_nodup : (response_.cookies_.map Prod.fst).Nodup

namespace ResponseWriter

def new (version : Version) (maxResponseSize : Nat) (h : maxResponseSize < 2 ^ 64) :
    ResponseWriter classes where
  response_ := { (Response.new : Response H) with version_ := version }
  maxResponseSize := maxResponseSize
  maxResponseSize_lt := h
  code_int := show -(2 ^ 31) ≤ (0 : Int) ∧ (0 : Int) < 2 ^ 31 by decide
  headers_named := fun e he => nomatch he
  headers_nodup := List.nodup_nil
  cookies_named := fun e he => nomatch he
  cookies_nodup := CookieJar.nodup_nil

/-- `response_.code_ = code`. -/
def setCode (w : ResponseWriter classes) (code : Code)
    (h : -(2 ^ 31) ≤ code.value ∧ code.value < 2 ^ 31) : ResponseWriter classes :=
  { w with response_ := { w.response_ with code_ := code }, code_int := h }

/-- `headers().add(header)`. -/
def addHeader (w : ResponseWriter classes) (header : TypedHeader H) : ResponseWriter classes :=
  { w with
    response_ := { w.response_ with
      headers_ := w.response_.headers_.add (header.name classes) header }
    headers_named := fun e he => by
      rcases Replay.insertNew_mem he with he | rfl
      · exact w.headers_named e he
      · rfl
    headers_nodup := insertNew_nodup w.headers_nodup }

/-- `headers().remove(name)`. -/
def removeHeader (w : ResponseWriter classes) (name : Bytes) : ResponseWriter classes :=
  { w with
    response_ := { w.response_ with
      headers_ := { w.response_.headers_ with
        headers := w.response_.headers_.headers.filter fun e => e.1 ≠ name.map tolower } }
    headers_named := fun e he => w.headers_named e (List.mem_of_mem_filter he)
    headers_nodup := w.headers_nodup.sublist (List.filter_sublist.map Prod.fst) }

/-- `cookies().add(cookie)`. -/
def addCookie (w : ResponseWriter classes) (cookie : Cookie) : ResponseWriter classes :=
  { w with
    response_ := { w.response_ with cookies_ := w.response_.cookies_.add cookie }
    cookies_named := fun e he => by
      rcases Replay.insertNew_mem he with he | rfl
      · exact w.cookies_named e he
      · rfl
    cookies_nodup := insertNew_nodup w.cookies_nodup }

/-! ## Writing -/

def writeStatusLine (version : Version) (code : Code) (buf : DynamicStreamBuf) :
    Bool × DynamicStreamBuf :=
  let os : Ostream := { buf }
  let os := (os.write (versionString version)).write (lit " ")
  let os := os.write (intText code.value)
  let os := os.write (lit " ")
  let os := os.write (codeString code)
  let os := os.write crlf
  (!os.bad, os.buf)

/-- One header of `writeHeaders`. -/
def writeHeader (classes : Classes H) (os : Ostream) (header : TypedHeader H) : Ostream :=
  ((os.write (header.name classes ++ lit ": ")).write (header.write classes)).write crlf

def writeHeaders (classes : Classes H) (headers : Header.Collection H) (buf : DynamicStreamBuf) :
    Bool × DynamicStreamBuf :=
  let os : Ostream := { buf }
  let os := (headers.headers.map Prod.snd).foldl (writeHeader classes) os
  (!os.bad, os.buf)

/-- One cookie of `writeCookies`. -/
def writeCookie (dates : Dates) (os : Ostream) (cookie : Cookie) : Ostream :=
  ((os.write (lit "Set-Cookie: ")).write (cookie.write dates)).write crlf

def writeCookies (dates : Dates) (cookies : CookieJar) (buf : DynamicStreamBuf) :
    Bool × DynamicStreamBuf :=
  let os : Ostream := { buf }
  let os := (cookies.map Prod.snd).foldl (writeCookie dates) os
  (!os.bad, os.buf)

/-- `ResponseWriter::putOnWire`: the bytes that are given to `Transport::asyncWrite`; `thrown`
is what `timeout_.disarm` or `peer` throws.  What the functions return is not looked at. -/
def putOnWire (w : ResponseWriter classes) (data : Bytes) (thrown : Option Exn) :
    Except Exn Bytes :=
  let (_, buf) := writeStatusLine w.response_.version_ w.response_.code_
    ⟨[], w.maxResponseSize, Nat.zero_le _⟩
  let (_, buf) := writeHeaders classes w.response_.headers_ buf
  let (_, buf) := writeCookies classes.dates w.response_.cookies_ buf
  let os : Ostream := { buf }
  let os := writeHeader classes os (.ContentLength (UInt64.ofNat data.length))
  if os.bad then .error (.std "Response exceeded buffer size")
  else
    let os := os.write crlf
    if os.bad then .error (.std "Response exceeded buffer size")
    else
      let os := if data.length > 0 then os.write data else os
      if os.bad then .error (.std "Response exceeded buffer size")
      else
        match thrown with
        | some e => .error e
        | none => .ok os.buf.data

/-! ## What is written -/

def statusLine (version : Version) (code : Code) : Bytes :=
  versionString version ++ lit " " ++ intText code.value ++ lit " " ++ codeString code ++ crlf

/-- The line of a cookie. -/
def cookieLine (dates : Dates) (cookie : Cookie) : Bytes × Bytes :=
  (lit "Set-Cookie", cookie.write dates)

/-- The lines between the status line and the blank one. -/
def lines (w : ResponseWriter classes) (data : Bytes) : List (Bytes × Bytes) :=
  (w.response_.headers_.headers.map Prod.snd).map (TypedHeader.line classes) ++
    (w.response_.cookies_.map Prod.snd).map (cookieLine classes.dates) ++
    [(TypedHeader.ContentLength (UInt64.ofNat data.length) : TypedHeader H).line classes]

/-- The message. -/
def wire (w : ResponseWriter classes) (data : Bytes) : Bytes :=
  statusLine w.response_.version_ w.response_.code_ ++
    (w.lines data).flatMap HeadersStep.lineText ++ crlf ++ data

theorem writeHeader_eq (os : Ostream) (header : TypedHeader H) :
    writeHeader classes os header = os.write (HeadersStep.lineText (header.line classes)) := by
  simp [writeHeader, HeadersStep.lineText, TypedHeader.line, lit, HeadersStep.colon, SP, crlf]

theorem writeCookie_eq (dates : Dates) (os : Ostream) (cookie : Cookie) :
    writeCookie dates os cookie = os.write (HeadersStep.lineText (cookieLine dates cookie)) := by
  simp [writeCookie, HeadersStep.lineText, cookieLine, lit, HeadersStep.colon, SP, crlf]

theorem write_nil (os : Ostream) : os.write [] = os := by
  unfold Ostream.write
  split
  · rfl
  · rename_i hbad
    obtain ⟨buf, bad⟩ := os
    simp only [Bool.not_eq_true] at hbad
    subst hbad
    simp [DynamicStreamBuf.sputn]

theorem foldl_write {α : Type} (text : α → Bytes) : ∀ (xs : List α) (os : Ostream),
    xs.foldl (fun os x => os.write (text x)) os = os.write (xs.flatMap text)
  | [], os => (write_nil os).symm
  | x :: xs, os => by
    rw [List.foldl_cons, foldl_write, Ostream.write_write, List.flatMap_cons]

theorem writeStatusLine_buf (version : Version) (code : Code) (buf : DynamicStreamBuf) :
    (writeStatusLine version code buf).2 = buf.sputn (statusLine version code) := by
  simp only [writeStatusLine, Ostream.write_write, statusLine]
  rfl

theorem writeHeaders_buf (headers : Header.Collection H) (buf : DynamicStreamBuf) :
    (writeHeaders classes headers buf).2 = buf.sputn
      (((headers.headers.map Prod.snd).map (TypedHeader.line classes)).flatMap
        HeadersStep.lineText) := by
  have hfold : writeHeader classes = fun os (header : TypedHeader H) =>
      os.write (HeadersStep.lineText (header.line classes)) := by
    funext os header
    exact writeHeader_eq os header
  rw [writeHeaders, hfold, foldl_write]
  exact congrArg buf.sputn (List.flatMap_map _ _ _).symm

theorem writeCookies_buf (dates : Dates) (cookies : CookieJar) (buf : DynamicStreamBuf) :
    (writeCookies dates cookies buf).2 = buf.sputn
      (((cookies.map Prod.snd).map (cookieLine dates)).flatMap HeadersStep.lineText) := by
  have hfold : writeCookie dates = fun os (cookie : Cookie) =>
      os.write (HeadersStep.lineText (cookieLine dates cookie)) := by
    funext os cookie
    exact writeCookie_eq dates os cookie
  rw [writeCookies, hfold, foldl_write]
  exact congrArg buf.sputn (List.flatMap_map _ _ _).symm

/-- **The message goes out whole, or not at all.** -/
theorem putOnWire_eq (w : ResponseWriter classes) (data : Bytes) (thrown : Option Exn) :
    w.putOnWire data thrown =
      if (w.wire data).length ≤ w.maxResponseSize then
        match thrown with
        | some e => .error e
        | none => .ok (w.wire data)
      else .error (.std "Response exceeded buffer size") := by
  let front := statusLine w.response_.version_ w.response_.code_ ++
    ((w.response_.headers_.headers.map Prod.snd).map (TypedHeader.line classes)).flatMap
      HeadersStep.lineText ++
    ((w.response_.cookies_.map Prod.snd).map (cookieLine classes.dates)).flatMap
      HeadersStep.lineText
  let length := HeadersStep.lineText
    ((TypedHeader.ContentLength (UInt64.ofNat data.length) : TypedHeader H).line classes)
  let buf : DynamicStreamBuf := (⟨[], w.maxResponseSize, Nat.zero_le _⟩ : DynamicStreamBuf).sputn front
  have hwire : w.wire data = front ++ (length ++ crlf ++ data) := by
    simp only [wire, lines, List.flatMap_append, List.flatMap_singleton, front, length,
      List.append_assoc]
  have hdata : ∀ os : Ostream, (if data.length > 0 then os.write data else os) = os.write data := by
    intro os
    by_cases hlen : data.length > 0
    · rw [if_pos hlen]
    · have hnil : data = [] := List.eq_nil_of_length_eq_zero (by omega)
      rw [if_neg hlen, hnil, write_nil]
  have hput : w.putOnWire data thrown =
      if (({ buf } : Ostream).write length).bad then .error (.std "Response exceeded buffer size")
      else if (({ buf } : Ostream).write (length ++ crlf)).bad then
        .error (.std "Response exceeded buffer size")
      else if (({ buf } : Ostream).write (length ++ crlf ++ data)).bad then
        .error (.std "Response exceeded buffer size")
      else
        match thrown with
        | some e => .error e
        | none => .ok (({ buf } : Ostream).write (length ++ crlf ++ data)).buf.data := by
    have hbuf : buf = (writeCookies classes.dates w.response_.cookies_
        (writeHeaders classes w.response_.headers_
          (writeStatusLine w.response_.version_ w.response_.code_
            ⟨[], w.maxResponseSize, Nat.zero_le _⟩).2).2).2 := by
      rw [writeCookies_buf, writeHeaders_buf, writeStatusLine_buf,
        DynamicStreamBuf.sputn_sputn, DynamicStreamBuf.sputn_sputn,
        ← List.append_assoc]
    unfold putOnWire
    simp only [hdata]
    simp only [← hbuf, writeHeader_eq, Ostream.write_write]
    rfl
  have hbad : ∀ text : Bytes, (({ buf } : Ostream).write text).bad = decide (buf.free < text.length) :=
    fun _ => rfl
  have hfree : buf.free = w.maxResponseSize - front.length := by
    simp only [buf, DynamicStreamBuf.free, DynamicStreamBuf.sputn_maxSize,
      DynamicStreamBuf.sputn_take, List.nil_append, List.length_take, List.length_nil]
    omega
  rw [hput, hwire]
  simp only [hbad, decide_eq_true_eq, hfree, List.length_append]
  have hpos : 0 < length.length := by
    simp [length, HeadersStep.lineText]
  by_cases hfits : front.length + (length.length + crlf.length + data.length) ≤ w.maxResponseSize
  · rw [if_pos hfits, if_neg (by omega), if_neg (by omega), if_neg (by omega),
      Ostream.write_fits rfl (by rw [hfree]; simp only [List.length_append]; omega)]
    have hroom : front.length ≤
        (⟨[], w.maxResponseSize, Nat.zero_le _⟩ : DynamicStreamBuf).free := by
      simp only [DynamicStreamBuf.free, List.length_nil]
      omega
    rw [DynamicStreamBuf.sputn_data (by rw [hfree]; simp only [List.length_append]; omega),
      DynamicStreamBuf.sputn_data hroom, List.nil_append]
  · rw [if_neg hfits]
    split
    · rfl
    · split
      · rfl
      · rw [if_pos (by omega)]

end ResponseWriter

end Pistache.Http
