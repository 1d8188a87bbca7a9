import Pistache.Http.CookieTrip

/-!
# Header classes as text

What a header class writes, against what the parser makes of it.  `Classes` is a set of classes
as the functions of the parser and the writers need it: the name and the written text of a
header, and the reader of each registered class.  `Header.classes` are those of the repository
that hold texts, tokens, methods or encodings, and the classes of an application that come from
`PISTACHE_CUSTOM_HEADER`, over any set of other classes.

Principal results:

* `Classes.Survives` — the parser takes what a header writes for this header.
* `Header.text_survives_iff` — a class that holds a text loses the spaces in front of it and
  what stands behind a CRLF.
-/

set_option autoImplicit false

namespace Pistache.Http

open HeadersStep (Clean asRead typed)

variable {H X : Type}

/-- A set of header classes.  A class that reads a value on one line writes it on one line. -/
structure Classes (H : Type) where
  others : Bytes → Option (Bytes → Except Exn H)
  dates : Dates
  name : H → Bytes
  write : H → Bytes
  oneLine : ∀ {key value : Bytes} {parseRaw : Bytes → Except Exn H} {header : H},
    others key = some parseRaw → parseRaw value = .ok header → OneLine value →
      OneLine (write header)

/-- The part that the parser uses. -/
def Classes.registry (classes : Classes H) : Registry H := ⟨classes.others, classes.dates.fromString⟩

/-- No classes at all; no text is a date. -/
def Classes.none : Classes Empty where
  others _ := Option.none
  dates := ⟨fun _ => [], fun _ => .error (.std "Invalid Date format"), fun _ => by simp⟩
  name header := nomatch header
  write header := nomatch header
  oneLine h := nomatch h

namespace Header

/-- `encodingString`. -/
def encodingString : Encoding → Bytes
  | .Gzip => lit "gzip"
  | .Br => lit "br"
  | .Zstd => lit "zstd"
  | .Compress => lit "compress"
  | .Deflate => lit "deflate"
  | .Identity => lit "identity"
  | .Chunked => lit "chunked"
  | .Unknown => lit "unknown"

/-- `Connection::write`. -/
def Connection.write : ConnectionControl → Bytes
  | .Close => lit "Close"
  | .KeepAlive => lit "Keep-Alive"
  | .Ext => lit "Ext"

theorem encodingFromString_encodingString (encoding : Encoding) :
    encodingFromString (encodingString encoding) = encoding := by
  cases encoding <;> decide

end Header

namespace TypedHeader

variable (classes : Classes H)

/-- `Header::name`. -/
def name : TypedHeader H → Bytes
  | .ContentLength _ => lit "Content-Length"
  | .TransferEncoding _ => lit "Transfer-Encoding"
  | .Connection _ => lit "Connection"
  | .other header => classes.name header

/-- `Header::write`. -/
def write : TypedHeader H → Bytes
  | .ContentLength value => numeral 10 value.toNat
  | .TransferEncoding encoding => Header.encodingString encoding
  | .Connection control => Header.Connection.write control
  | .other header => classes.write header

/-- The line of a header, as `writeHeaders` puts it out. -/
def line (header : TypedHeader H) : Bytes × Bytes := (header.name classes, header.write classes)

end TypedHeader

namespace Classes

variable (classes : Classes H)

/-- **The parser takes the line of the header for this header.** -/
structure Survives (header : TypedHeader H) : Prop where
  clean : Clean (header.line classes)
  read : typed classes.registry (asRead (header.line classes)).1 (asRead (header.line classes)).2 =
    some (.ok header)

variable {classes}

theorem numeral_CR (n : Nat) : CR ∉ numeral 10 n := by
  intro hin
  have := Cookie.numeral_digits _ _ hin
  rw [CR_not_digit] at this
  cases this

/-- What has been read from one line is written on one line. -/
theorem typed_oneLine {name value : Bytes} {header : TypedHeader H}
    (h : typed classes.registry name value = some (.ok header)) (hvalue : OneLine value) :
    OneLine (header.write classes) := by
  unfold typed at h
  split at h
  · cases h
  · unfold Registry.parse at h
    dsimp only at h
    repeat' split at h
    · cases hc : Header.ContentLength.parse value with
      | error e => simp [hc, Except.map] at h
      | ok n =>
        simp only [hc, Except.map, Option.some.injEq, Except.ok.injEq] at h
        subst h
        exact oneLine_of_not_mem (numeral_CR _)
    · simp only [Option.some.injEq, Except.ok.injEq] at h
      subst h
      change OneLine (Header.encodingString _)
      cases Header.encodingFromString value <;> decide
    · simp only [Option.some.injEq, Except.ok.injEq] at h
      subst h
      change OneLine (Header.Connection.write _)
      cases Header.Connection.parseRaw value <;> decide
    · obtain ⟨parseRaw, hother, hparse⟩ := Option.map_eq_some_iff.mp h
      cases hc : parseRaw value with
      | error e => simp [hc, Except.map] at hparse
      | ok header' =>
        simp only [hc, Except.map, Except.ok.injEq] at hparse
        subst hparse
        exact classes.oneLine hother hc hvalue

/-! ## The classes that the parser looks at -/

/-- What the readers of numbers find in front of a numeral, and in it. -/
theorem numeral_read (n : Nat) :
    (numeral 10 n).dropWhile isspace = numeral 10 n ∧ (numeral 10 n).head? ≠ some 45 ∧
      (numeral 10 n).head? ≠ some 43 ∧ (numeral 10 n).takeWhile (isDigitOf 10) = numeral 10 n ∧
      (numeral 10 n).dropWhile (isDigitOf 10) = [] := by
  have hdigits := Cookie.numeral_digits n
  obtain ⟨c, text, htext⟩ := List.exists_cons_of_ne_nil (numeral_ne_nil 10 n)
  obtain ⟨hspace, hminus, hplus, -⟩ := digit_plain (hdigits c (by rw [htext]; simp))
  refine ⟨?_, ?_, ?_, List.takeWhile_eq_self_iff.mpr hdigits, List.dropWhile_eq_nil_iff.mpr hdigits⟩
  · rw [htext, List.dropWhile_cons, hspace]
    simp
  · simpa [htext] using hminus
  · simpa [htext] using hplus

theorem stoull_numeral {n : Nat} (hn : n < 2 ^ 64) :
    stoull (numeral 10 n) = .ok (UInt64.ofNat n) := by
  obtain ⟨hdrop, hminus, hplus, htake, -⟩ := numeral_read n
  have hvalue := digitsValue_numeral (show 1 < 10 by decide) (by decide) n
  have hne := numeral_ne_nil 10 n
  simp only [stoull, hdrop, hminus, hplus, or_self, if_false, htake, hne, hvalue, if_pos hn]

theorem numeral_space (n : Nat) : (numeral 10 n).dropWhile (· = SP) = numeral 10 n := by
  obtain ⟨c, text, htext⟩ := List.exists_cons_of_ne_nil (numeral_ne_nil 10 n)
  have hc : isDigitOf 10 c = true := Cookie.numeral_digits n c (by rw [htext]; simp)
  have hne : c ≠ SP := by
    rintro rfl
    simp [isDigitOf, digitValue, SP] at hc
  rw [htext, List.dropWhile_cons]
  simp [hne]

/-- A `Content-Length` is read back. -/
theorem contentLength_survives (n : UInt64) :
    classes.Survives (.ContentLength n : TypedHeader H) where
  clean := ⟨show HeadersStep.colon ∉ lit "Content-Length" by decide,
    show Pistache.eol (lit "Content-Length") = false by decide, oneLine_of_not_mem (numeral_CR _)⟩
  read := by
    have hread : asRead ((TypedHeader.ContentLength n : TypedHeader H).line classes) =
        (lit "Content-Length", numeral 10 n.toNat) :=
      Prod.ext rfl (numeral_space n.toNat)
    have hcookie : HeadersStep.isCookieHeader (lit "Content-Length") = false := by decide
    have hname : (lit "Content-Length").map tolower = lit "content-length" := by decide
    have hparse : Header.ContentLength.parse (numeral 10 n.toNat) = .ok n := by
      rw [Header.ContentLength.parse, stoull_numeral (UInt64.toNat_lt n), UInt64.ofNat_toNat]
    rw [hread, typed, hcookie, Registry.parse, hname]
    simp only [Bool.false_eq_true, if_false, if_true, hparse]
    rfl

/-- So are the other two. -/
theorem transferEncoding_survives (encoding : Header.Encoding) :
    classes.Survives (.TransferEncoding encoding : TypedHeader H) where
  clean := by
    change Clean (lit "Transfer-Encoding", Header.encodingString encoding)
    cases encoding <;> decide
  read := by cases encoding <;> rfl

theorem connection_survives (control : ConnectionControl) :
    classes.Survives (.Connection control : TypedHeader H) where
  clean := by
    change Clean (lit "Connection", Header.Connection.write control)
    cases control <;> decide
  read := by cases control <;> rfl

end Classes

/-! ## The classes of the repository -/

namespace Header

/-- The classes of which a header holds a text and writes it; the last are those of
`PISTACHE_CUSTOM_HEADER`. -/
inductive TextClass where
  | AccessControlAllowHeaders
  | AccessControlAllowMethods
  | AccessControlAllowOrigin
  | AccessControlExposeHeaders
  | Authorization
  | Location
  | UserAgent
  | custom (name : Bytes)
  deriving DecidableEq

def TextClass.name : TextClass → Bytes
  | .AccessControlAllowHeaders => lit "Access-Control-Allow-Headers"
  | .AccessControlAllowMethods => lit "Access-Control-Allow-Methods"
  | .AccessControlAllowOrigin => lit "Access-Control-Allow-Origin"
  | .AccessControlExposeHeaders => lit "Access-Control-Expose-Headers"
  | .Authorization => lit "Authorization"
  | .Location => lit "Location"
  | .UserAgent => lit "User-Agent"
  | .custom name => name

/-- `Expectation`. -/
inductive Expectation where
  | Continue
  | Ext
  deriving DecidableEq, Repr

inductive Class (X : Type) where
  | text (cls : TextClass) (value : Bytes)
  | Allow (methods : List Method)
  | ContentEncoding (encoding : Encoding)
  | ETag (etagc : Bytes) (isWeak : Bool)
  | Expect (expectation : Expectation)
  | Server (tokens : List Bytes)
  | rest (header : X)
  deriving DecidableEq

/-- `methodString`: the name under which the table has the method. -/
def methodString (method : Method) : Bytes :=
  ((httpMethods.find? fun e => e.2 = method).map Prod.fst).getD []

/-- `Allow::write`. -/
def Allow.write (methods : List Method) : Bytes :=
  (lit ", ").intercalate (methods.map methodString)

/-- `ETag::write`. -/
def ETag.write (etagc : Bytes) (isWeak : Bool) : Bytes :=
  (if isWeak then lit "W/" else []) ++ [34] ++ etagc ++ [34]

/-- `Expect::write`. -/
def Expect.write : Expectation → Bytes
  | .Continue => lit "100-continue"
  | .Ext => []

/-- `Expect::parseRaw`.  `strcmp` goes on until it finds a zero; behind the value stands the
rest of the message. -/
def Expect.parseRaw (str : Bytes) : Expectation :=
  if str.takeWhile (· ≠ 0) = lit "100-continue" ∧ 0 ∈ str then .Continue else .Ext

/-- `Server::write`. -/
def Server.write (tokens : List Bytes) : Bytes := (lit " ").intercalate tokens

variable (rest : Classes X) (custom : List Bytes)

def Class.name : Class X → Bytes
  | .text cls _ => cls.name
  | .Allow _ => lit "Allow"
  | .ContentEncoding _ => lit "Content-Encoding"
  | .ETag _ _ => lit "ETag"
  | .Expect _ => lit "Expect"
  | .Server _ => lit "Server"
  | .rest header => rest.name header

def Class.write : Class X → Bytes
  | .text _ value => value
  | .Allow methods => Allow.write methods
  | .ContentEncoding encoding => encodingString encoding
  | .ETag etagc isWeak => ETag.write etagc isWeak
  | .Expect expectation => Expect.write expectation
  | .Server tokens => Server.write tokens
  | .rest header => rest.write header

/-- The registered classes of texts; an application may register some of its own. -/
def textClasses : List TextClass :=
  [.AccessControlAllowHeaders, .AccessControlAllowMethods, .AccessControlAllowOrigin,
    .AccessControlExposeHeaders, .Authorization, .Location, .UserAgent] ++ custom.map .custom

/-- The readers by lowered name.  `Allow::parseRaw` does nothing, `Server::parse` appends the
text to no tokens; `ETag` is not registered. -/
def Class.others (key : Bytes) : Option (Bytes → Except Exn (Class X)) :=
  if key = lit "allow" then some fun _ => .ok (.Allow [])
  else if key = lit "content-encoding" then
    some fun str => .ok (.ContentEncoding (encodingFromString str))
  else if key = lit "expect" then some fun str => .ok (.Expect (Expect.parseRaw str))
  else if key = lit "server" then some fun str => .ok (.Server [str])
  else
    match (textClasses custom).find? fun cls => cls.name.map tolower = key with
    | some cls => some fun str => .ok (.text cls str)
    | none => (rest.others key).map fun parseRaw str => (parseRaw str).map .rest

theorem Class.others_oneLine {key value : Bytes} {parseRaw : Bytes → Except Exn (Class X)}
    {header : Class X} (h : Class.others rest custom key = some parseRaw)
    (hparse : parseRaw value = .ok header) (hvalue : OneLine value) :
    OneLine (Class.write rest header) := by
  unfold Class.others at h
  repeat' split at h
  · cases h
    cases hparse
    change OneLine (Allow.write [])
    decide
  · cases h
    cases hparse
    change OneLine (encodingString _)
    cases encodingFromString value <;> decide
  · cases h
    cases hparse
    change OneLine (Expect.write _)
    cases Expect.parseRaw value <;> decide
  · cases h
    cases hparse
    change OneLine (Server.write [value])
    simpa [Server.write] using hvalue
  · cases h
    cases hparse
    exact hvalue
  · obtain ⟨parse, hother, rfl⟩ := Option.map_eq_some_iff.mp h
    cases hc : parse value with
    | error e => simp [hc, Except.map] at hparse
    | ok header' =>
      simp only [hc, Except.map, Except.ok.injEq] at hparse
      subst hparse
      exact rest.oneLine hother hc hvalue

/-- The classes of the repository over the classes `rest`, with those that the application has
registered under the names `custom`. -/
def classes : Classes (Class X) where
  others := Class.others rest custom
  dates := rest.dates
  name := Class.name rest
  write := Class.write rest
  oneLine := Class.others_oneLine rest custom

variable {rest custom}

theorem dropWhile_space {text : Bytes} :
    text.dropWhile (· = SP) = text ↔ text.head? ≠ some SP := by
  cases text with
  | nil => simp
  | cons c text =>
    by_cases hc : c = SP
    · subst hc
      simp only [List.dropWhile_cons, decide_true, if_true, List.head?_cons, ne_eq, not_true,
        iff_false]
      intro heq
      have := (List.dropWhile_suffix (fun c => decide (c = SP)) (l := text)).length_le
      rw [heq, List.length_cons] at this
      omega
    · simp [hc]

/-- **A text comes back when it stands on one line and does not begin with a space.** -/
theorem text_survives_iff {cls : TextClass} (hcls : ∀ name, cls ≠ .custom name) (value : Bytes) :
    (classes rest custom).Survives (.other (.text cls value)) ↔
      OneLine value ∧ value.head? ≠ some SP := by
  have hread : ∀ str, typed (classes rest custom).registry cls.name str =
      some (.ok (.other (.text cls str))) := by
    intro str
    cases cls with
    | custom name => exact absurd rfl (hcls name)
    | _ => rfl
  have hname : HeadersStep.colon ∉ cls.name ∧ eol cls.name = false := by
    cases cls with
    | custom name => exact absurd rfl (hcls name)
    | _ => decide
  rw [← dropWhile_space]
  constructor
  · rintro ⟨hclean, htyped⟩
    refine ⟨hclean.oneLine, ?_⟩
    have hsome := (hread (value.dropWhile (· = SP))).symm.trans htyped
    simpa using hsome
  · rintro ⟨hline, hdrop⟩
    refine ⟨⟨hname.1, hname.2, hline⟩, ?_⟩
    refine (hread (value.dropWhile (· = SP))).trans ?_
    rw [hdrop]

/-- Methods do not come back. -/
theorem allow_survives_iff (methods : List Method) :
    (classes rest custom).Survives (.other (.Allow methods)) ↔ methods = [] := by
  constructor
  · rintro ⟨-, htyped⟩
    have hread : typed (classes rest custom).registry (lit "Allow")
        ((Allow.write methods).dropWhile (· = SP)) = some (.ok (.other (.Allow []))) := rfl
    have hsome := hread.symm.trans htyped
    simpa [eq_comm] using hsome
  · rintro rfl
    exact ⟨show Clean (lit "Allow", Allow.write []) by decide, rfl⟩

/-- A server of several tokens comes back as one of one token. -/
theorem server_survives_iff (tokens : List Bytes) :
    (classes rest custom).Survives (.other (.Server tokens)) ↔
      ∃ token, tokens = [token] ∧ OneLine token ∧ token.head? ≠ some SP := by
  have hread : typed (classes rest custom).registry (lit "Server")
      ((Server.write tokens).dropWhile (· = SP)) =
        some (.ok (.other (.Server [(Server.write tokens).dropWhile (· = SP)]))) := rfl
  constructor
  · rintro ⟨hclean, htyped⟩
    have hsome := hread.symm.trans htyped
    simp only [Option.some.injEq, Except.ok.injEq, TypedHeader.other.injEq, Class.Server.injEq]
      at hsome
    have hwrite : Server.write tokens = (Server.write tokens).dropWhile (· = SP) := by
      conv_lhs => rw [← hsome]
      simp [Server.write]
    refine ⟨_, hsome.symm, ?_, dropWhile_space.mp ?_⟩
    · rw [← hwrite]
      exact hclean.oneLine
    · rw [← hwrite]
      exact hwrite.symm
  · rintro ⟨token, rfl, hline, hspace⟩
    have hwrite : Server.write [token] = token := by simp [Server.write]
    refine ⟨⟨show HeadersStep.colon ∉ lit "Server" by decide,
      show eol (lit "Server") = false by decide, ?_⟩, hread.trans ?_⟩
    · change OneLine (Server.write [token])
      rwa [hwrite]
    · rw [hwrite, dropWhile_space.mpr hspace]

theorem contentEncoding_survives (encoding : Encoding) :
    (classes rest custom).Survives (.other (.ContentEncoding encoding)) where
  clean := by
    change Clean (lit "Content-Encoding", encodingString encoding)
    cases encoding <;> decide
  read := by cases encoding <;> rfl

theorem expect_survives_iff (expectation : Expectation) :
    (classes rest custom).Survives (.other (.Expect expectation)) ↔ expectation = .Ext := by
  constructor
  · rintro ⟨-, htyped⟩
    cases expectation with
    | Continue => cases htyped
    | Ext => rfl
  · rintro rfl
    exact ⟨show Clean (lit "Expect", Expect.write .Ext) by decide, rfl⟩

end Header

end Pistache.Http
