import Mathlib.Data.List.GetD
import Pistache.Common.Cursor
import Pistache.Http.Defs
import Pistache.Lib.Loop
import Pistache.Lib.Replay

/-!
# Media types

`strToQvalue` and `MediaType::parseRaw`.  The text of a value stands in a larger memory: what
lies behind its last byte is an argument, `behind`, since a quality is read through a bare
pointer.  A quality is the number of thousandths that `strToQvalue` divides; the rounding of
`Q::fromFloat` is left out.

* `strToQvalue_append` — a quality ends in front of what cannot belong to a number.
* `MediaType.parameterBody_shrinks` — every pass of the parameter loop reads something.
* `MediaType.parseRaw_behind` — what lies behind the text does not matter.
-/

set_option autoImplicit false

namespace Pistache.Http

open Replay

def Code.Unsupported_Media_Type : Code := ⟨415⟩

/-! ## Qualities -/

namespace Header

def dot : UInt8 := 46

/-- The loop of `strToQvalue`, with the passes that are left: the number of characters of the
value, `none` for a dot in a wrong place. -/
def qvalueLen : (passes : Nat) → (len : Nat) → Bytes → Option Nat
  | 0, len, _ => some len
  | passes + 1, len, str =>
    let c := str.headD 0
    if c = dot ∧ len ≠ 1 then none
    else if c ≠ dot ∧ isdigit c = false then some len
    else qvalueLen passes (len + 1) (str.drop 1)

/-- `str[i] - '0'`. -/
def qvalueDigit (str : Bytes) (i : Nat) : Nat := (str.getD i 0).toNat - 48

/-- `qint`. -/
def qint (str : Bytes) (len : Nat) : Nat :=
  qvalueDigit str 0 * 1000 + (if 3 ≤ len then qvalueDigit str 2 * 100 else 0) +
    (if 4 ≤ len then qvalueDigit str 3 * 10 else 0) + if 5 ≤ len then qvalueDigit str 4 else 0

/-- `strToQvalue`: the thousandths and the number of characters. -/
def strToQvalue (str : Bytes) : Option (Nat × Nat) :=
  match qvalueLen 6 0 str with
  | none => none
  | some len =>
    if len < 1 ∨ len = 2 ∨ len > 5 then none
    else if str.getD 0 0 ≠ 48 ∧ str.getD 0 0 ≠ 49 then none
    else if qint str len > 1000 then none
    else some (qint str len, len)

/-- A text that does not go on with a number, a `q` or a `=`. -/
structure Stops (behind : Bytes) : Prop where
  digit : isdigit (behind.headD 0) = false
  dot : behind.headD 0 ≠ dot
  letter : behind.headD 0 ≠ 113
  equals : behind.headD 0 ≠ 61

theorem Stops.of_head {behind : Bytes} {c : UInt8} (hc : behind.headD 0 = c)
    (h : c = 0 ∨ c = CR ∨ c = 44 ∨ c = eofChar) : Stops behind := by
  rcases h with rfl | rfl | rfl | rfl <;> constructor <;> rw [hc] <;> decide

theorem Stops.nil : Stops [] := .of_head rfl (.inl rfl)

theorem qvalueLen_append {behind : Bytes} (hb : Stops behind) :
    ∀ (passes len : Nat) (str : Bytes),
      qvalueLen passes len (str ++ behind) = qvalueLen passes len str
  | 0, _, _ => rfl
  | passes + 1, len, [] => by
    have hbehind : qvalueLen (passes + 1) len behind = some len := by
      rw [qvalueLen, if_neg fun h => hb.dot h.1, if_pos ⟨hb.dot, hb.digit⟩]
    have hnil : qvalueLen (passes + 1) len [] = some len := by
      rw [qvalueLen, if_neg fun h => Stops.nil.dot h.1, if_pos ⟨Stops.nil.dot, Stops.nil.digit⟩]
    rw [List.nil_append, hbehind, hnil]
  | passes + 1, len, c :: str => by
    have ih := qvalueLen_append hb passes (len + 1) str
    simp only [List.cons_append, qvalueLen, List.headD_cons, List.drop_one, List.tail_cons, ih]

/-- The value does not reach behind the text. -/
theorem qvalueLen_le : ∀ {passes len n : Nat} {str : Bytes}, qvalueLen passes len str = some n →
    n ≤ len + str.length
  | 0, len, n, str, h => by
    rw [← Option.some.inj h]
    omega
  | passes + 1, len, n, str, h => by
    rw [qvalueLen] at h
    split at h
    · cases h
    · split at h
      · rw [← Option.some.inj h]
        omega
      · rename_i hchar
        have hle := qvalueLen_le h
        cases str with
        | nil => exact absurd ⟨Stops.nil.dot, Stops.nil.digit⟩ hchar
        | cons c str =>
          simp only [List.drop_one, List.tail_cons, List.length_cons] at hle ⊢
          omega

theorem qvalueDigit_append {str behind : Bytes} {i : Nat} (hi : i < str.length) :
    qvalueDigit (str ++ behind) i = qvalueDigit str i := by
  unfold qvalueDigit
  rw [List.getD_append _ _ _ _ hi]

theorem qint_append {str behind : Bytes} {len : Nat} (hlen : len ≤ str.length) (hpos : 1 ≤ len) :
    qint (str ++ behind) len = qint str len := by
  have hdigit : ∀ i, i < len → qvalueDigit (str ++ behind) i = qvalueDigit str i := fun i hi =>
    qvalueDigit_append (by omega)
  have h₀ := hdigit 0 (by omega)
  have h₂ : (if 3 ≤ len then qvalueDigit (str ++ behind) 2 * 100 else 0) =
      if 3 ≤ len then qvalueDigit str 2 * 100 else 0 := by
    split
    · rw [hdigit 2 (by omega)]
    · rfl
  have h₃ : (if 4 ≤ len then qvalueDigit (str ++ behind) 3 * 10 else 0) =
      if 4 ≤ len then qvalueDigit str 3 * 10 else 0 := by
    split
    · rw [hdigit 3 (by omega)]
    · rfl
  have h₄ : (if 5 ≤ len then qvalueDigit (str ++ behind) 4 else 0) =
      if 5 ≤ len then qvalueDigit str 4 else 0 := by
    split
    · rw [hdigit 4 (by omega)]
    · rfl
  unfold qint
  rw [h₀, h₂, h₃, h₄]

/-- **A quality is read from its own text.** -/
theorem strToQvalue_append {behind : Bytes} (hb : Stops behind) (str : Bytes) :
    strToQvalue (str ++ behind) = strToQvalue str := by
  unfold strToQvalue
  rw [qvalueLen_append hb]
  cases hlen : qvalueLen 6 0 str with
  | none => rfl
  | some len =>
    have hle := qvalueLen_le hlen
    rw [Nat.zero_add] at hle
    by_cases hpos : 1 ≤ len
    · simp only [qint_append hle hpos, List.getD_append _ _ _ _ (Nat.lt_of_lt_of_le hpos hle)]
    · have hshort : len < 1 ∨ len = 2 ∨ len > 5 := .inl (by omega)
      simp only [if_pos hshort]

end Header

/-! ## Types, subtypes and suffixes -/

namespace Mime

/-- `MIME_TYPES`. -/
inductive «Type» where
  | Star | Text | Image | Audio | Video | Application | Message | Multipart | None
  deriving DecidableEq, Repr

/-- `MIME_SUBTYPES`. -/
inductive Subtype where
  | Star | Plain | Html | Xhtml | Xml | Javascript | Css | OctetStream | Json | JsonSchema
  | JsonSchemaInstance | FormUrlEncoded | FormData | Png | Gif | Bmp | Jpeg | Vendor | Ext | None
  deriving DecidableEq, Repr

/-- `MIME_SUFFIXES`. -/
inductive Suffix where
  | Json | Ber | Der | Fastinfoset | Wbxml | Zip | Xml | None | Ext
  deriving DecidableEq, Repr

def mimeTypes : List (Bytes × «Type») :=
  [(lit "*", .Star), (lit "text", .Text), (lit "image", .Image), (lit "audio", .Audio),
    (lit "video", .Video), (lit "application", .Application), (lit "message", .Message),
    (lit "multipart", .Multipart)]

def mimeSubtypes : List (Bytes × Subtype) :=
  [(lit "*", .Star), (lit "plain", .Plain), (lit "html", .Html), (lit "xhtml", .Xhtml),
    (lit "xml", .Xml), (lit "javascript", .Javascript), (lit "css", .Css),
    (lit "octet-stream", .OctetStream), (lit "json", .Json), (lit "schema+json", .JsonSchema),
    (lit "schema-instance+json", .JsonSchemaInstance),
    (lit "x-www-form-urlencoded", .FormUrlEncoded), (lit "form-data", .FormData),
    (lit "png", .Png), (lit "gif", .Gif), (lit "bmp", .Bmp), (lit "jpeg", .Jpeg)]

def mimeSuffixes : List (Bytes × Suffix) :=
  [(lit "json", .Json), (lit "ber", .Ber), (lit "der", .Der), (lit "fastinfoset", .Fastinfoset),
    (lit "wbxml", .Wbxml), (lit "zip", .Zip), (lit "xml", .Xml)]

/-- `MediaType::Index`. -/
structure Index where
  beg : Nat
  end_ : Nat
  deriving DecidableEq

structure MediaType where
  top_ : «Type»
  sub_ : Subtype
  suffix_ : Suffix
  raw_ : Bytes
  rawSubIndex : Index
  rawSuffixIndex : Index
  params : List (Bytes × Bytes)
  q_ : Option Nat
  deriving DecidableEq

namespace MediaType

def new : MediaType :=
  { top_ := .None, sub_ := .None, suffix_ := .None, raw_ := [], rawSubIndex := ⟨0, 0⟩,
    rawSuffixIndex := ⟨0, 0⟩, params := [], q_ := none }

/-- `raise` of `MediaType::parseRaw`. -/
def raise (str : String) : Exn := .http .Unsupported_Media_Type str

def semicolon : UInt8 := 59
def plus : UInt8 := 43
def slash : UInt8 := 47
def equals : UInt8 := 61

/-- The index of the text from `start` to `cursor`, both inside `raw_`. -/
def index (raw_ start cursor : Bytes) : Index :=
  ⟨raw_.length - start.length, raw_.length - cursor.length - 1⟩

/-- The type in front of the slash. -/
def parseTop (cursor : Bytes) : Except Exn («Type» × Bytes) :=
  match firstMatch match_string mimeTypes cursor with
  | none => .error (raise "Unknown Media Type")
  | some (top, cursor) =>
    match match_literal slash cursor with
    | none => .error (raise "Malformed Media Type, expected a '/' after the top type")
    | some cursor =>
      if cursor = [] then .error (raise "Malformed Media type, missing subtype")
      else .ok (top, cursor)

/-- The subtype, with `rawSubIndex` where it is not one of the table. -/
def parseSub (media : MediaType) (start : Bytes) : MediaType × Bytes :=
  let (sub, cursor) :=
    match match_raw (lit "vnd.") start with
    | some cursor => (Subtype.Vendor, cursor)
    | none => (firstMatch match_string mimeSubtypes start).getD (Subtype.Ext, start)
  if sub = .Ext ∨ sub = .Vendor then
    let cursor := (tokenUntil [semicolon, plus] cursor).2
    ({ media with sub_ := sub, rawSubIndex := index media.raw_ start cursor }, cursor)
  else ({ media with sub_ := sub }, cursor)

/-- The suffix behind a plus sign. -/
def parseSuffix (media : MediaType) (cursor : Bytes) : Except Exn (MediaType × Bytes) :=
  match match_literal plus cursor with
  | none => .ok (media, cursor)
  | some start =>
    if start = [] then .error (raise "Malformed Media Type, expected suffix, got EOF")
    else
      match firstMatch match_string mimeSuffixes start with
      | some (suffix, cursor) => .ok ({ media with suffix_ := suffix }, cursor)
      | none =>
        let cursor := (tokenUntil [semicolon, plus] start).2
        .ok ({ media with suffix_ := .Ext, rawSuffixIndex := index media.raw_ start cursor }, cursor)

/-- The quality behind the letter of its parameter. -/
def parseQuality (behind : Bytes) (media : MediaType) (cursor : Bytes) :
    Except Exn (MediaType × Bytes) :=
  if cursor = [] then .error (raise "Invalid quality factor")
  else
    match match_literal equals cursor with
    | none => .error (raise "Missing quality factor")
    | some cursor =>
      match Header.strToQvalue (cursor ++ behind) with
      | none => .error (raise "Invalid quality factor")
      | some (val, qvalue_len) =>
        .ok ({ media with q_ := some val }, (advance qvalue_len cursor).getD cursor)

/-- A parameter that is no quality. -/
def parseParam (media : MediaType) (cursor : Bytes) : Except Exn (MediaType × Bytes) :=
  let (key, cursor) := tokenUntil [equals] cursor
  if next cursor = none ∨ next cursor = some 0 then
    .error (raise "Unfinished Media Type parameter")
  else
    let (value, cursor) := tokenUntil [SP, semicolon] (cursor.drop 1)
    .ok ({ media with params := insertNew key value media.params }, cursor)

/-- One pass of the loop over the parameters. -/
def parseParameter (behind : Bytes) (media : MediaType) (cursor : Bytes) :
    Except Exn (MediaType × Bytes) :=
  if current cursor = semicolon ∨ current cursor = SP then
    if next cursor = none ∨ next cursor = some 0 then
      .error (raise "Malformed Media Type, expected parameter got EOF")
    else .ok (media, cursor.drop 1)
  else
    match match_literal 113 cursor with
    | some cursor => parseQuality behind media cursor
    | none => parseParam media cursor

/-- `while (!cursor.eof()) { ... }`. -/
def parameterBody (behind : Bytes) : Loop.Body MediaType UInt8 (Except Exn MediaType) :=
  fun media cursor =>
    if cursor = [] then .inl (.ok media)
    else
      match parseParameter behind media cursor with
      | .error e => .inl (.error e)
      | .ok (media, cursor) => .inr (media, cursor)

def parseParameters (behind : Bytes) : MediaType → Bytes → Except Exn MediaType :=
  Loop.run (parameterBody behind) fun media _ => .ok media

/-- `MediaType::parseRaw` of a new object, of the text `str` in front of `behind`. -/
def parseRaw (str behind : Bytes) : Except Exn MediaType := do
  let (top, cursor) ← parseTop str
  let (media, cursor) := parseSub { new with raw_ := str, top_ := top } cursor
  if cursor = [] then return media
  let (media, cursor) ← parseSuffix media cursor
  parseParameters behind media cursor

/-! ### The loop ends -/

theorem parseQuality_length {behind : Bytes} {media media' : MediaType} {cursor rest : Bytes}
    (h : parseQuality behind media cursor = .ok (media', rest)) : rest.length ≤ cursor.length := by
  unfold parseQuality at h
  split at h
  · cases h
  · split at h
    · cases h
    · rename_i c heq
      have hlen := match_literal_length heq
      split at h
      · cases h
      · rename_i val n _
        simp only [Except.ok.injEq, Prod.mk.injEq] at h
        rw [← h.2]
        cases hadv : advance n c with
        | none => simp only [Option.getD_none]; omega
        | some c' =>
          have := advance_length hadv
          simp only [Option.getD_some]
          omega

theorem parseParam_length {media media' : MediaType} {cursor rest : Bytes}
    (h : parseParam media cursor = .ok (media', rest)) : rest.length < cursor.length := by
  unfold parseParam at h
  dsimp only at h
  split at h
  · cases h
  · rename_i hnext
    simp only [Except.ok.injEq, Prod.mk.injEq] at h
    have h₁ := tokenUntil_length [equals] cursor
    have h₂ := tokenUntil_length [SP, semicolon] ((tokenUntil [equals] cursor).2.drop 1)
    rw [List.length_drop] at h₂
    cases hc : next (tokenUntil [equals] cursor).2 with
    | none => exact absurd (.inl hc) hnext
    | some c =>
      have := next_some_length hc
      rw [← h.2]
      omega

theorem parseParameter_length {behind : Bytes} {media media' : MediaType} {cursor rest : Bytes}
    (h : parseParameter behind media cursor = .ok (media', rest)) :
    rest.length < cursor.length := by
  unfold parseParameter at h
  split at h
  · split at h
    · cases h
    · rename_i hnext
      simp only [Except.ok.injEq, Prod.mk.injEq] at h
      cases hc : next cursor with
      | none => exact absurd (.inl hc) hnext
      | some c =>
        have := next_some_length hc
        rw [← h.2, List.length_drop]
        omega
  · split at h
    · rename_i c hlit
      have h₁ := match_literal_length hlit
      have h₂ := parseQuality_length h
      omega
    · exact parseParam_length h

theorem parameterBody_shrinks (behind : Bytes) : Loop.Shrinks (parameterBody behind) := by
  intro media cursor media' rest h
  unfold parameterBody at h
  split at h
  · cases h
  · split at h
    · cases h
    · rename_i m c hparam
      simp only [Sum.inr.injEq, Prod.mk.injEq] at h
      obtain ⟨rfl, rfl⟩ := h
      exact parseParameter_length hparam

/-! ### What lies behind the text -/

theorem parseQuality_behind {behind : Bytes} (hb : Header.Stops behind) (media : MediaType)
    (cursor : Bytes) : parseQuality behind media cursor = parseQuality [] media cursor := by
  unfold parseQuality
  split
  · rfl
  · split
    · rfl
    · rw [Header.strToQvalue_append hb, List.append_nil]

theorem parameterBody_behind {behind : Bytes} (hb : Header.Stops behind) :
    parameterBody behind = parameterBody [] := by
  funext media cursor
  unfold parameterBody parseParameter
  simp only [parseQuality_behind hb]

/-- **What lies behind a media type** does not matter. -/
theorem parseRaw_behind {behind : Bytes} (hb : Header.Stops behind) (str : Bytes) :
    parseRaw str behind = parseRaw str [] := by
  unfold parseRaw parseParameters
  rw [parameterBody_behind hb]

end MediaType

end Mime

end Pistache.Http
