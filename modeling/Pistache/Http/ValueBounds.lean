import Pistache.Http.HeaderParsers
import Pistache.Http.Steps

/-!
# Header classes read their own values

The classes that `http_headers.cc` registers with the registry, what `parseRaw` of each makes of
a value in the receive buffer, and the registry that they form.

* `parseRaw_behind` — every class but `Expect` makes the same of a value wherever it stands.
* `header_behind` — `HeadersStep` calls `parseRaw` of values in front of a CR LF.
* `registry_parse` — the outcome that `HeadersStep` works with is the one in the buffer.
* `value_alone` — the outcome is that on a copy of the value, unless `Expect` reads
  `100-continue`.
-/

set_option autoImplicit false

namespace Pistache.Http

/-! ## The registered classes -/

/-- `RegisterHeader`. -/
inductive Registered where
  | Accept | AccessControlAllowOrigin | AccessControlAllowHeaders | AccessControlExposeHeaders
  | AccessControlAllowMethods | Allow | CacheControl | Connection | AcceptEncoding
  | ContentEncoding | TransferEncoding | ContentLength | ContentType | Authorization | Date
  | Expect | Host | LastModified | Location | Server | UserAgent
  deriving DecidableEq, Repr

/-- What a new object of a class holds after `parseRaw`. -/
inductive Parsed where
  | mediaRange (mediaRange_ : List Mime.MediaType)
  | text (value_ : Bytes)
  | methods (methods_ : List Method)
  | directives (directives_ : List CacheDirective)
  | control (control_ : ConnectionControl)
  | encodings (encodings_ : List (Header.Encoding × Nat))
  | encoding (encoding_ : Header.Encoding)
  | length (value_ : UInt64)
  | mime (mime_ : Mime.MediaType)
  | date (fullDate_ : FullDate)
  | expectation (expectation_ : Expectation)
  | host (host : Host)
  | tokens (tokens_ : List Bytes)
  deriving DecidableEq

/-- A C string: the bytes in front of the first zero. -/
def cString (memory : Bytes) : Bytes := memory.takeWhile (· ≠ 0)

/-- `Expect::parseRaw`: `strcmp` is not told where the value ends. -/
def Expect.parseRaw (memory : Bytes) : Expectation :=
  if cString memory = lit "100-continue" then .Continue else .Ext

namespace Registered

/-- `name()`. -/
def name : Registered → Bytes
  | Accept => lit "Accept"
  | AccessControlAllowOrigin => lit "Access-Control-Allow-Origin"
  | AccessControlAllowHeaders => lit "Access-Control-Allow-Headers"
  | AccessControlExposeHeaders => lit "Access-Control-Expose-Headers"
  | AccessControlAllowMethods => lit "Access-Control-Allow-Methods"
  | Allow => lit "Allow"
  | CacheControl => lit "Cache-Control"
  | Connection => lit "Connection"
  | AcceptEncoding => lit "Accept-Encoding"
  | ContentEncoding => lit "Content-Encoding"
  | TransferEncoding => lit "Transfer-Encoding"
  | ContentLength => lit "Content-Length"
  | ContentType => lit "Content-Type"
  | Authorization => lit "Authorization"
  | Date => lit "Date"
  | Expect => lit "Expect"
  | Host => lit "Host"
  | LastModified => lit "Last-Modified"
  | Location => lit "Location"
  | Server => lit "Server"
  | UserAgent => lit "User-Agent"

def all : List Registered :=
  [Accept, AccessControlAllowOrigin, AccessControlAllowHeaders, AccessControlExposeHeaders,
    AccessControlAllowMethods, Allow, CacheControl, Connection, AcceptEncoding, ContentEncoding,
    TransferEncoding, ContentLength, ContentType, Authorization, Date, Expect, Host, LastModified,
    Location, Server, UserAgent]

section

variable (inet6 : Inet6) (fullDate : Bytes → Except Exn FullDate)

/-- `parseRaw(str, len)` of a new object, where `value` are the `len` bytes at `str` and `behind`
stands in the memory behind them. -/
def parseRaw (value behind : Bytes) : Registered → Except Exn Parsed
  | Accept => (Accept.parseRaw value behind).map .mediaRange
  | AccessControlAllowOrigin | AccessControlAllowHeaders | AccessControlExposeHeaders
  | AccessControlAllowMethods | Authorization | Location | UserAgent => .ok (.text value)
  | Allow => .ok (.methods [])
  | CacheControl => (CacheControl.parseRaw value).map .directives
  | Connection => .ok (.control (Header.Connection.parseRaw value))
  | AcceptEncoding => .ok (.encodings (AcceptEncoding.parseRaw value behind))
  | ContentEncoding | TransferEncoding => .ok (.encoding (Header.encodingFromString value))
  | ContentLength => (Header.ContentLength.parse value).map .length
  | ContentType => (Mime.MediaType.parseRaw value behind).map .mime
  | Date | LastModified => (fullDate value).map .date
  | Expect => .ok (.expectation (Expect.parseRaw (value ++ behind)))
  | Host => (Host.parse inet6 value).map .host
  | Server => .ok (.tokens [value])

/-- All classes but one read nothing behind the value. -/
theorem parseRaw_behind {behind : Bytes} (hb : Header.Stops behind) (value : Bytes)
    {type : Registered} (htype : type ≠ Expect) :
    type.parseRaw inet6 fullDate value behind = type.parseRaw inet6 fullDate value [] := by
  cases type with
  | Accept => simp only [parseRaw, Accept.parseRaw, Accept.body_behind hb]
  | AcceptEncoding => simp only [parseRaw, AcceptEncoding.parseRaw, AcceptEncoding.body_behind hb]
  | ContentType => simp only [parseRaw, Mime.MediaType.parseRaw_behind hb]
  | Expect => exact absurd rfl htype
  | _ => rfl

/-! ## The registry -/

/-- What the collection of the headers keeps of an object. -/
def typed (type : Registered) (parsed : Parsed) : TypedHeader Parsed :=
  match type, parsed with
  | ContentLength, .length value => .ContentLength value
  | TransferEncoding, .encoding encoding => .TransferEncoding encoding
  | Connection, .control control => .Connection control
  | _, parsed => .other parsed

/-- The class that is registered under a name. -/
def ofName (name : Bytes) : Option Registered := all.find? fun type => type.name.map tolower = name

/-- `Registry::instance()`; the values stand in front of the CR LF that ends their lines. -/
def registry : Registry Parsed where
  others name := (ofName name).map fun type value =>
    type.parseRaw inet6 fullDate value [CR, LF]
  fullDate := fullDate

end

end Registered

/-! ## The buffer -/

/-- A text that may follow a value in the receive buffer. -/
def Follows (behind : Bytes) : Prop := ∃ rest, behind = CR :: LF :: rest

theorem Follows.stops {behind : Bytes} (h : Follows behind) : Header.Stops behind := by
  obtain ⟨rest, rfl⟩ := h
  exact .of_head rfl (.inr (.inl rfl))

theorem stops_zero : Header.Stops [0] := .of_head rfl (.inl rfl)

/-- The value of a header that `HeadersStep` reads ends in front of a CR LF. -/
theorem header_behind {cursor name value rest : Bytes}
    (h : HeadersStep.header cursor = some (name, value, rest)) :
    ∃ front behind, cursor = front ++ value ++ behind ∧ Follows behind ∧ behind.drop 2 = rest := by
  unfold HeadersStep.header at h
  split at h
  · cases h
  · rename_i name' c hname
    split at h
    · cases h
    · rename_i value' behind hvalue
      simp only [Option.some.injEq, Prod.mk.injEq] at h
      obtain ⟨rfl, rfl, rfl⟩ := h
      obtain ⟨htext, rest, hcrlf⟩ := untilEol_some hvalue
      obtain ⟨hcursor, -⟩ := match_until_some hname
      obtain ⟨t, ht⟩ := (List.dropWhile_suffix (l := c.drop 1) fun x => x = SP).trans
        (List.drop_suffix 1 c)
      refine ⟨name' ++ t, behind, ?_, ⟨rest, hcrlf⟩, rfl⟩
      rw [hcursor, ← ht, htext]
      simp only [List.append_assoc]

/-! ## C strings -/

/-- A zero ends a C string, whatever stands behind it. -/
theorem cString_of_mem {value : Bytes} (h : (0 : UInt8) ∈ value) (behind : Bytes) :
    cString (value ++ behind) = cString value := by
  obtain ⟨a, b, rfl, ha⟩ := List.eq_append_cons_of_mem h
  have hpos : ∀ c ∈ a, decide (c ≠ 0) = true := fun c hc => decide_eq_true fun e => ha (e ▸ hc)
  simp only [cString, List.append_assoc, List.cons_append]
  rw [List.takeWhile_append_of_pos hpos, List.takeWhile_append_of_pos hpos,
    List.takeWhile_cons_of_neg (by simp), List.takeWhile_cons_of_neg (by simp)]

/-- A value without a zero is read, and what stands behind it as well. -/
theorem cString_of_not_mem {value : Bytes} (h : (0 : UInt8) ∉ value) (behind : Bytes) :
    cString (value ++ behind) = value ++ cString behind := by
  have hpos : ∀ c ∈ value, decide (c ≠ 0) = true := fun c hc =>
    decide_eq_true fun e => h (e ▸ hc)
  exact List.takeWhile_append_of_pos hpos

/-- In front of the end of a line no value without a zero is `100-continue`. -/
theorem Expect.parseRaw_follows {value behind : Bytes} (h : (0 : UInt8) ∉ value)
    (hb : Follows behind) : Expect.parseRaw (value ++ behind) = .Ext := by
  obtain ⟨rest, rfl⟩ := hb
  refine if_neg fun heq => ?_
  rw [cString_of_not_mem h, cString, List.takeWhile_cons_of_pos (by decide)] at heq
  have hCR : CR ∈ lit "100-continue" := by
    rw [← heq]
    simp
  exact absurd hCR (by decide)

/-- A copy of such a value is read to its end. -/
theorem Expect.parseRaw_copy {value : Bytes} (h : (0 : UInt8) ∉ value) :
    Expect.parseRaw (value ++ [0]) = if value = lit "100-continue" then .Continue else .Ext := by
  have hvalue : cString (value ++ [0]) = value := by
    rw [cString_of_not_mem h, cString, List.takeWhile_cons_of_neg (by simp), List.append_nil]
  rw [Expect.parseRaw, hvalue]

section

variable (inet6 : Inet6) (fullDate : Bytes → Except Exn FullDate)

/-- Two texts that may follow a value make no difference. -/
theorem Registered.parseRaw_follows (type : Registered) (value : Bytes) {t₁ t₂ : Bytes}
    (h₁ : Follows t₁) (h₂ : Follows t₂) :
    type.parseRaw inet6 fullDate value t₁ = type.parseRaw inet6 fullDate value t₂ := by
  by_cases htype : type = .Expect
  · subst htype
    simp only [Registered.parseRaw]
    by_cases hzero : (0 : UInt8) ∈ value
    · simp only [Expect.parseRaw, cString_of_mem hzero]
    · rw [Expect.parseRaw_follows hzero h₁, Expect.parseRaw_follows hzero h₂]
  · rw [parseRaw_behind inet6 fullDate h₁.stops value htype,
      parseRaw_behind inet6 fullDate h₂.stops value htype]

/-- What `HeadersStep` makes of a value is what `parseRaw` makes of it in the buffer. -/
theorem Registered.registry_parse (type : Registered) (value : Bytes) {behind : Bytes}
    (hb : Follows behind) :
    (registry inet6 fullDate).parse type.name value =
      some ((type.parseRaw inet6 fullDate value behind).map type.typed) := by
  rw [parseRaw_follows inet6 fullDate type value hb ⟨[], rfl⟩]
  have hother : ∀ type : Registered, type.name.map tolower ≠ lit "content-length" →
      type.name.map tolower ≠ lit "transfer-encoding" →
      type.name.map tolower ≠ lit "connection" →
      ofName (type.name.map tolower) = some type →
      (registry inet6 fullDate).parse type.name value =
        some ((type.parseRaw inet6 fullDate value [CR, LF]).map .other) := by
    intro type h₁ h₂ h₃ hname
    simp only [Registry.parse, if_neg h₁, if_neg h₂, if_neg h₃, registry, hname, Option.map_some]
  cases type with
  | ContentLength =>
    have hparse : (registry inet6 fullDate).parse (name .ContentLength) value =
        some ((Header.ContentLength.parse value).map .ContentLength) := rfl
    rw [hparse]
    simp only [parseRaw]
    cases Header.ContentLength.parse value <;> rfl
  | TransferEncoding => rfl
  | Connection => rfl
  | _ => exact hother _ (by decide) (by decide) (by decide) (by decide)

/-- **Header parsers read only their own value**: in the buffer `parseRaw` makes the same of a
value whatever follows it, and the same as of a copy of the value, unless `Expect` is given
`100-continue`. -/
theorem value_alone (type : Registered) (value : Bytes) {t₁ t₂ : Bytes} (h₁ : Follows t₁)
    (h₂ : Follows t₂) :
    type.parseRaw inet6 fullDate value t₁ = type.parseRaw inet6 fullDate value t₂ ∧
        type.parseRaw inet6 fullDate value t₁ = type.parseRaw inet6 fullDate value [0] ↔
      ¬(type = .Expect ∧ value = lit "100-continue") := by
  have hsame := type.parseRaw_follows inet6 fullDate value h₁ h₂
  by_cases htype : type = .Expect
  · subst htype
    by_cases hzero : (0 : UInt8) ∈ value
    · have hvalue : value ≠ lit "100-continue" := by
        rintro rfl
        exact absurd hzero (by decide)
      have hcopy : Registered.Expect.parseRaw inet6 fullDate value t₁ =
          Registered.Expect.parseRaw inet6 fullDate value [0] := by
        simp only [Registered.parseRaw, Expect.parseRaw, cString_of_mem hzero]
      exact ⟨fun _ h => hvalue h.2, fun _ => ⟨hsame, hcopy⟩⟩
    · simp only [Registered.parseRaw, Expect.parseRaw_follows hzero h₁,
        Expect.parseRaw_follows hzero h₂, Expect.parseRaw_copy hzero, true_and]
      split <;> simp_all
  · have hcopy : type.parseRaw inet6 fullDate value t₁ =
        type.parseRaw inet6 fullDate value [0] := by
      rw [Registered.parseRaw_behind inet6 fullDate h₁.stops value htype,
        Registered.parseRaw_behind inet6 fullDate stops_zero value htype]
    exact ⟨fun _ h => htype h.1, fun _ => ⟨hsame, hcopy⟩⟩

end

/-! ## The header `Expect: 100-continue` -/

/-- None of the texts below is an IPv6 address. -/
def namesOnly : Inet6 where
  normalize _ := none
  colons := Inet6.none_colons
  plain := Inet6.none_plain

/-- In the buffer the value is not recognised; in a copy of it, it is. -/
theorem expect_continue :
    Registered.Expect.parseRaw namesOnly Registry.basic.fullDate (lit "100-continue") [CR, LF] =
        .ok (.expectation .Ext) ∧
      Registered.Expect.parseRaw namesOnly Registry.basic.fullDate (lit "100-continue") [0] =
        .ok (.expectation .Continue) :=
  ⟨rfl, rfl⟩

/-- A quality at the end of its value, and digits in the line behind it. -/
theorem value_alone_accept :
    (Registered.Accept.parseRaw namesOnly Registry.basic.fullDate (lit "text/html;q=0.8")
          (CR :: LF :: lit "100") =
        Registered.Accept.parseRaw namesOnly Registry.basic.fullDate (lit "text/html;q=0.8")
          [CR, LF] ∧
      Registered.Accept.parseRaw namesOnly Registry.basic.fullDate (lit "text/html;q=0.8")
          (CR :: LF :: lit "100") =
        Registered.Accept.parseRaw namesOnly Registry.basic.fullDate (lit "text/html;q=0.8") [0]) ↔
      ¬(Registered.Accept = .Expect ∧ lit "text/html;q=0.8" = lit "100-continue") :=
  value_alone namesOnly Registry.basic.fullDate .Accept (lit "text/html;q=0.8") ⟨lit "100", rfl⟩
    ⟨[], rfl⟩

end Pistache.Http
