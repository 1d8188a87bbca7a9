import Pistache.Http.CookieText

/-!
# Cookies read back

`Cookie::fromRaw` on what `Cookie::write` has written.  Behind an entry of `ext` the reader does
not skip the semicolon, so that a second entry comes back under another name.

Principal results:

* `Cookie.fromRaw_write` — what is read of a cookie without separators in its texts.
* `Cookie.fromRaw_write_iff` — which of these cookies are read back as they have been written.
-/

set_option autoImplicit false

namespace Pistache.Http

open Replay

namespace Cookie

variable {dates : Dates} {c : Cookie}

/-- The name of an entry of `ext` that the reader finds again. -/
structure PlainName (text : Bytes) : Prop where
  equals : equals ∉ text
  blank : text.head? ≠ some SP ∧ text.head? ≠ some HT
  unknown : ¬IsAttribute text

/-- A cookie of which no text has a separator in it; there may be line ends. -/
structure Plain (c : Cookie) : Prop where
  name : equals ∉ c.name
  value : semicolon ∉ c.value
  path : ∀ text, c.path = some text → semicolon ∉ text
  domain : ∀ text, c.domain = some text → semicolon ∉ text
  extName : ∀ e ∈ c.ext, PlainName e.1
  extValue : ∀ e ∈ c.ext, semicolon ∉ e.2

theorem Readable.plain (h : c.Readable) : c.Plain where
  name := h.name_equals
  value := h.value.1
  path text ht := (h.path text ht).1
  domain text ht := (h.domain text ht).1
  extName e he := ⟨(h.extName e he).equals, (h.extName e he).blank, (h.extName e he).unknown⟩
  extValue e he := (h.extValue e he).1

/-- An attribute in the text of a cookie: what stands behind the `; `, and what the reader does
with it. -/
structure Field where
  text : Bytes
  set : Cookie → Except Exn Cookie

def Field.path (val : Bytes) : Field :=
  ⟨lit "Path=" ++ val, fun c => .ok { c with path := some val }⟩

def Field.domain (val : Bytes) : Field :=
  ⟨lit "Domain=" ++ val, fun c => .ok { c with domain := some val }⟩

def Field.maxAge (val : Int32) : Field :=
  ⟨lit "Max-Age=" ++ intText val.toInt,
    fun c => (strntol (intText val.toInt)).map fun n => { c with maxAge := some n }⟩

def Field.expires (dates : Dates) (val : FullDate) : Field :=
  ⟨lit "Expires=" ++ dates.write val,
    fun c => (dates.fromString (dates.write val)).map fun date => { c with expires := some date }⟩

def Field.secure : Field := ⟨lit "Secure", fun c => .ok { c with secure := true }⟩

def Field.httpOnly : Field := ⟨lit "HttpOnly", fun c => .ok { c with httpOnly := true }⟩

/-- The attributes of a cookie, as they are written. -/
def fields (dates : Dates) (c : Cookie) : List Field :=
  (c.path.map .path).toList ++ (c.domain.map .domain).toList ++ (c.maxAge.map .maxAge).toList
    ++ (c.expires.map (.expires dates)).toList ++ (if c.secure then [.secure] else [])
    ++ (if c.httpOnly then [.httpOnly] else [])

def fieldText (field : Field) : Bytes := semicolon :: SP :: field.text

def extText (e : Bytes × Bytes) : Bytes := semicolon :: SP :: (e.1 ++ equals :: e.2)

theorem extText_eq (e : Bytes × Bytes) : extText e = lit "; " ++ (e.1 ++ lit "=" ++ e.2) := by
  simp [extText, lit, semicolon, SP, equals]

theorem writeExt_eq : ∀ (ext : List (Bytes × Bytes)), ext ≠ [] →
    lit "; " ++ writeExt ext = ext.flatMap extText
  | [], h => absurd rfl h
  | [e], _ => by rw [List.flatMap_cons, List.flatMap_nil, List.append_nil, extText_eq, writeExt]
  | e :: f :: ext, _ => by
    rw [List.flatMap_cons, ← writeExt_eq (f :: ext) (by simp), extText_eq]
    simp only [writeExt, List.append_assoc]

theorem optional_text {α : Type} (field : α → Field) (val : Option α) :
    (val.elim [] fun val => lit "; " ++ (field val).text) =
      (val.map field).toList.flatMap fieldText := by
  cases val with
  | none => rfl
  | some val => simp [fieldText, lit, semicolon, SP]

/-- The text of a cookie: the name, the value, the attributes, the entries of `ext`. -/
theorem write_eq (dates : Dates) (c : Cookie) : c.write dates =
    c.name ++ equals :: (c.value ++ ((c.fields dates).flatMap fieldText ++ c.ext.flatMap extText)) := by
  have hext : (if c.ext = [] then [] else lit "; " ++ writeExt c.ext) = c.ext.flatMap extText := by
    by_cases h : c.ext = []
    · simp [h]
    · rw [if_neg h, writeExt_eq _ h]
  have hpath : (c.path.elim [] fun val => lit "; " ++ (lit "Path=" ++ val)) = _ :=
    optional_text .path c.path
  have hdomain : (c.domain.elim [] fun val => lit "; " ++ (lit "Domain=" ++ val)) = _ :=
    optional_text .domain c.domain
  have hmaxAge : (c.maxAge.elim [] fun val => lit "; " ++ (lit "Max-Age=" ++ intText val.toInt)) =
      _ := optional_text .maxAge c.maxAge
  have hexpires : (c.expires.elim [] fun val => lit "; " ++ (lit "Expires=" ++ dates.write val)) =
      _ := optional_text (.expires dates) c.expires
  have hsecure : (if c.secure then lit "; Secure" else []) =
      (if c.secure then [Field.secure] else []).flatMap fieldText := by
    cases c.secure <;> decide
  have hhttpOnly : (if c.httpOnly then lit "; HttpOnly" else []) =
      (if c.httpOnly then [Field.httpOnly] else []).flatMap fieldText := by
    cases c.httpOnly <;> decide
  rw [write, hext, hpath, hdomain, hmaxAge, hexpires, hsecure, hhttpOnly, fields]
  simp only [List.flatMap_append, List.append_assoc]
  rfl

/-! ### One attribute -/

/-- What comes behind an attribute or an entry. -/
def Behind (tail : Bytes) : Prop := tail = [] ∨ ∃ rest, tail = semicolon :: rest

theorem tokenToSemicolon_behind {val tail : Bytes} (h : semicolon ∉ val) (ht : Behind tail) :
    tokenToSemicolon (val ++ tail) = (val, tail) := by
  have hval : ∀ x ∈ val, x ∉ [semicolon] := fun x hx hin => by
    rw [List.mem_singleton] at hin
    exact h (hin ▸ hx)
  unfold tokenToSemicolon
  rcases ht with rfl | ⟨rest, rfl⟩
  · rw [List.append_nil, match_until_none hval]
    rfl
  · rw [match_until_token (by simp) hval]
    rfl

theorem matchValue_behind {val tail : Bytes} (h : semicolon ∉ val) (ht : Behind tail) :
    matchValue (equals :: val ++ tail) = .ok (val, tail) := by
  have htok := tokenToSemicolon_behind h ht
  simp [matchValue, htok]

theorem match_string_none_append {str text : Bytes} (hlen : str.length ≤ text.length)
    (h : match_string str text = none) (more : Bytes) : match_string str (text ++ more) = none := by
  unfold match_string at h ⊢
  rw [if_neg (by omega)] at h
  rw [if_neg (by rw [List.length_append]; omega), List.take_append_of_le_length hlen]
  split at h
  · cases h
  · rename_i hne
    rw [if_neg hne]

/-- An attribute is found when none in front of it in the table stands in its place. -/
theorem find_attribute {str : Bytes} {attr : Attribute} (text rest : Bytes) (n : Nat)
    (hget : attributes[n]? = some (str, attr)) (hstr : match_string str text = some rest)
    (hfront : ∀ a ∈ attributes.take n, a.1.length ≤ text.length ∧ match_string a.1 text = none)
    (more : Bytes) :
    (attributes.findSome? fun a => (match_string a.1 (text ++ more)).map fun rest => (a.2, rest)) =
      some (attr, rest ++ more) := by
  have hlt : n < attributes.length := by
    by_contra hge
    rw [List.getElem?_eq_none (by omega)] at hget
    cases hget
  have hsplit : attributes = attributes.take n ++ (str, attr) :: attributes.drop (n + 1) := by
    rw [List.getElem?_eq_getElem hlt, Option.some.injEq] at hget
    rw [← hget, List.getElem_cons_drop, List.take_append_drop]
  have hnone : ((attributes.take n).findSome? fun a =>
      (match_string a.1 (text ++ more)).map fun rest => (a.2, rest)) = none := by
    rw [List.findSome?_eq_none_iff]
    intro a ha
    rw [match_string_none_append (hfront a ha).1 (hfront a ha).2]
    rfl
  rw [hsplit, List.findSome?_append, hnone, Option.none_or, List.findSome?_cons,
    match_string_append hstr]
  rfl

/-- The reader does with the text of the attribute what the attribute says. -/
structure Field.Reads (dates : Dates) (field : Field) : Prop where
  head : ∃ c rest, field.text = c :: rest ∧ c ≠ SP ∧ c ≠ HT
  read : ∀ (c : Cookie) (tail : Bytes), Behind tail →
    readAttribute dates.fromString c (field.text ++ tail) =
      (field.set c).map fun c => (c, tail.drop 1)

theorem Field.path_reads (dates : Dates) {val : Bytes} (h : semicolon ∉ val) :
    (Field.path val).Reads dates where
  head := ⟨80, lit "ath=" ++ val, rfl, by decide, by decide⟩
  read c tail ht := by
    have hfind := find_attribute (lit "Path") [] 0 rfl (by decide) (by decide)
      (equals :: val ++ tail)
    have htext : (Field.path val).text ++ tail = lit "Path" ++ (equals :: val ++ tail) := rfl
    rw [htext, readAttribute, hfind, List.nil_append]
    simp only [matchAttributeValue, matchValue_behind h ht]
    rfl

theorem Field.domain_reads (dates : Dates) {val : Bytes} (h : semicolon ∉ val) :
    (Field.domain val).Reads dates where
  head := ⟨68, lit "omain=" ++ val, rfl, by decide, by decide⟩
  read c tail ht := by
    have hfind := find_attribute (lit "Domain") [] 1 rfl (by decide) (by decide)
      (equals :: val ++ tail)
    have htext : (Field.domain val).text ++ tail = lit "Domain" ++ (equals :: val ++ tail) := rfl
    rw [htext, readAttribute, hfind, List.nil_append]
    simp only [matchAttributeValue, matchValue_behind h ht]
    rfl

theorem Field.secure_reads (dates : Dates) : Field.secure.Reads dates where
  head := ⟨83, lit "ecure", rfl, by decide, by decide⟩
  read c tail _ := by
    have hfind := find_attribute (lit "Secure") [] 2 rfl (by decide) (by decide) tail
    have htext : Field.secure.text ++ tail = lit "Secure" ++ tail := rfl
    rw [htext, readAttribute, hfind, List.nil_append]
    rfl

theorem Field.httpOnly_reads (dates : Dates) : Field.httpOnly.Reads dates where
  head := ⟨72, lit "ttpOnly", rfl, by decide, by decide⟩
  read c tail _ := by
    have hfind := find_attribute (lit "HttpOnly") [] 3 rfl (by decide) (by decide)
      tail
    have htext : Field.httpOnly.text ++ tail = lit "HttpOnly" ++ tail := rfl
    rw [htext, readAttribute, hfind, List.nil_append]
    rfl

theorem numeral_digits (n : Nat) : ∀ c ∈ numeral 10 n, isDigitOf 10 c = true :=
  digitsValue_isSome_takeWhile (digitsValue_numeral (by decide) (by decide) n)

theorem intText_semicolon (n : Int) : semicolon ∉ intText n := by
  intro hin
  have hdigit : semicolon ∈ numeral 10 n.natAbs := by
    unfold intText at hin
    split at hin
    · rcases List.mem_cons.mp hin with h | h
      · cases h
      · exact h
    · exact hin
  have := numeral_digits _ _ hdigit
  simp [isDigitOf, digitValue, semicolon] at this

theorem Field.maxAge_reads (dates : Dates) (val : Int32) : (Field.maxAge val).Reads dates where
  head := ⟨77, lit "ax-Age=" ++ intText val.toInt, rfl, by decide, by decide⟩
  read c tail ht := by
    have hfind := find_attribute (lit "Max-Age=") (lit "=") 4 rfl (by decide)
      (by decide) (intText val.toInt ++ tail)
    have htext : (Field.maxAge val).text ++ tail = lit "Max-Age=" ++ (intText val.toInt ++ tail) :=
      List.append_assoc _ _ _
    have hvalue := matchValue_behind (intText_semicolon val.toInt) ht
    rw [htext, readAttribute, hfind]
    simp only [matchAttributeValue]
    rw [show lit "=" ++ (intText val.toInt ++ tail) = equals :: intText val.toInt ++ tail from rfl, hvalue]
    simp only [Field.maxAge, bind, Except.bind, pure, Except.pure]
    cases strntol (intText val.toInt) with
    | error e => rfl
    | ok n => rfl

theorem Field.expires_reads (dates : Dates) (val : FullDate) : (Field.expires dates val).Reads dates where
  head := ⟨69, lit "xpires=" ++ dates.write val, rfl, by decide, by decide⟩
  read c tail ht := by
    have hfind := find_attribute (lit "Expires=") (lit "=") 5 rfl (by decide)
      (by decide) (dates.write val ++ tail)
    have htext : (Field.expires dates val).text ++ tail =
        lit "Expires=" ++ (dates.write val ++ tail) := List.append_assoc _ _ _
    have hvalue := matchValue_behind (dates.write_plain val).1 ht
    rw [htext, readAttribute, hfind]
    simp only [matchAttributeValue]
    rw [show lit "=" ++ (dates.write val ++ tail) = equals :: dates.write val ++ tail from rfl, hvalue]
    simp only [Field.expires, bind, Except.bind, pure, Except.pure]
    cases dates.fromString (dates.write val) with
    | error e => rfl
    | ok n => rfl

/-! ### The loop -/

/-- The loop of `fromRaw`. -/
def readAttributes (dates : Dates) : Cookie → Bytes → Except Exn Cookie :=
  Loop.run (fromRawBody dates.fromString) fun cookie _ => .ok cookie

/-- The loop behind the semicolon at which `tail` begins, if there is one. -/
def readBehind (dates : Dates) (c : Cookie) (tail : Bytes) : Except Exn Cookie :=
  if tail = [] then .ok c else readAttributes dates c (tail.drop 1)

theorem readAttributes_eq (c : Cookie) (cursor : Bytes) :
    readAttributes dates c cursor =
      match readAttribute dates.fromString c (skip_whitespaces cursor) with
      | .error e => .error e
      | .ok (c, rest) => if rest = [] then .ok c else readAttributes dates c rest := by
  rw [readAttributes, Loop.run_eq (fromRawBody_shrinks dates.fromString), fromRawBody]
  cases readAttribute dates.fromString c (skip_whitespaces cursor) with
  | error e => rfl
  | ok r =>
    obtain ⟨c', rest⟩ := r
    by_cases hrest : rest = []
    · simp [hrest]
    · simp [hrest]

theorem skip_space {text : Bytes} {x : UInt8} {rest : Bytes} (htext : text = x :: rest)
    (hsp : x ≠ SP) (hht : x ≠ HT) (tail : Bytes) :
    skip_whitespaces (SP :: text ++ tail) = text ++ tail := by
  subst htext
  simp [skip_whitespaces, hsp, hht]

/-- A text that begins at a semicolon, followed by a blank. -/
def Separated (tail : Bytes) : Prop := tail = [] ∨ ∃ rest, tail = semicolon :: SP :: rest

theorem Separated.behind {tail : Bytes} (h : Separated tail) : Behind tail :=
  h.imp_right fun ⟨rest, hrest⟩ => ⟨SP :: rest, hrest⟩

theorem readBehind_field {field : Field} (hreads : field.Reads dates) (c : Cookie) {tail : Bytes}
    (ht : Separated tail) :
    readBehind dates c (fieldText field ++ tail) =
      match field.set c with
      | .error e => .error e
      | .ok c => readBehind dates c tail := by
  obtain ⟨x, rest, htext, hsp, hht⟩ := hreads.head
  rw [readBehind, if_neg (by simp [fieldText]), fieldText, List.cons_append, List.drop_succ_cons,
    List.drop_zero, readAttributes_eq, skip_space htext hsp hht, hreads.read c tail ht.behind]
  cases field.set c with
  | error e => rfl
  | ok c' =>
    rcases ht with rfl | ⟨rest', rfl⟩
    · rfl
    · simp [readBehind, Except.map]

/-- All the attributes, one after the other. -/
def setAll : List Field → Cookie → Except Exn Cookie
  | [], c => .ok c
  | field :: fs, c =>
    match field.set c with
    | .error e => .error e
    | .ok c => setAll fs c

theorem separated_fields {fs : List Field} {tail : Bytes} (ht : Separated tail) :
    Separated (fs.flatMap fieldText ++ tail) := by
  cases fs with
  | nil => exact ht
  | cons field fs => exact .inr ⟨field.text ++ (fs.flatMap fieldText ++ tail), by simp [fieldText]⟩

theorem readBehind_fields {tail : Bytes} (ht : Separated tail) : ∀ {fs : List Field} (c : Cookie),
    (∀ field ∈ fs, field.Reads dates) →
      readBehind dates c (fs.flatMap fieldText ++ tail) =
        match setAll fs c with
        | .error e => .error e
        | .ok c => readBehind dates c tail
  | [], c, _ => rfl
  | field :: fs, c, hreads => by
    rw [List.flatMap_cons, List.append_assoc,
      readBehind_field (hreads field List.mem_cons_self) c (separated_fields ht), setAll]
    cases field.set c with
    | error e => rfl
    | ok c' => exact readBehind_fields ht c' fun f hf => hreads f (List.mem_cons_of_mem field hf)

/-! ### The entries of `ext` -/

theorem separated_ext (ext : List (Bytes × Bytes)) : Separated (ext.flatMap extText) := by
  cases ext with
  | nil => exact .inl rfl
  | cons e ext => exact .inr ⟨e.1 ++ equals :: e.2 ++ ext.flatMap extText, by simp [extText]⟩

/-- No attribute has a name with an equals sign. -/
theorem isAttribute_equals {name : Bytes} (rest : Bytes) (h : ¬IsAttribute name) :
    ¬IsAttribute (name ++ equals :: rest) := by
  rintro ⟨a, ha, hsome⟩
  refine h ⟨a, ha, ?_⟩
  have hplain : ∀ a ∈ attributes, equals ∉ a.1.map tolower := by decide
  by_cases hlen : a.1.length ≤ name.length
  · cases hm : match_string a.1 name with
    | some rest => rfl
    | none =>
      rw [match_string_none_append hlen hm] at hsome
      cases hsome
  · -- the equals sign would be a letter of the attribute's name
    exfalso
    obtain ⟨k, hk⟩ : ∃ k, a.1.length - name.length = k + 1 :=
      ⟨a.1.length - name.length - 1, by omega⟩
    have hmem : equals ∈ (name ++ equals :: rest).take a.1.length := by
      rw [List.take_append, hk, List.take_succ_cons]
      simp
    unfold match_string at hsome
    split at hsome
    · cases hsome
    · split at hsome
      · rename_i heq
        refine hplain a ha ?_
        rw [heq]
        exact List.mem_map.mpr ⟨equals, hmem, by decide⟩
      · cases hsome

theorem readAttribute_ext {name value tail : Bytes} (hequals : equals ∉ name)
    (hname : ¬IsAttribute name) (hvalue : semicolon ∉ value) (ht : Behind tail) (c : Cookie) :
    readAttribute dates.fromString c (name ++ equals :: value ++ tail) =
      .ok ({ c with ext := insertNew name value c.ext }, tail) := by
  have htext : name ++ equals :: value ++ tail = name ++ equals :: (value ++ tail) := by simp
  have hnone : (attributes.findSome? fun a =>
      (match_string a.1 (name ++ equals :: (value ++ tail))).map fun rest => (a.2, rest)) = none := by
    rw [List.findSome?_eq_none_iff]
    intro a ha
    rw [Option.map_eq_none_iff]
    by_contra hne
    exact isAttribute_equals _ hname ⟨a, ha, Option.isSome_iff_ne_none.mpr hne⟩
  have htok : ∀ x ∈ name, x ∉ [equals] := fun x hx hin => by
    rw [List.mem_singleton] at hin
    exact hequals (hin ▸ hx)
  have hmatch := matchValue_behind hvalue ht
  rw [List.cons_append] at hmatch
  rw [htext, readAttribute, hnone]
  simp only [match_until_token (show equals ∈ [equals] by simp) htok, hmatch]
  rfl

/-- The name under which an entry behind another one is read. -/
def behindName (name : Bytes) : Bytes := semicolon :: SP :: name

theorem isAttribute_behind (name : Bytes) : ¬IsAttribute (behindName name) := by
  rintro ⟨a, ha, hsome⟩
  have hplain : ∀ a ∈ attributes, (a.1.map tolower).head? ≠ some semicolon ∧ a.1 ≠ [] := by decide
  obtain ⟨hhead, hne⟩ := hplain a ha
  unfold match_string at hsome
  split at hsome
  · cases hsome
  · split at hsome
    · rename_i heq
      refine hhead ?_
      rw [heq]
      cases hstr : a.1 with
      | nil => exact absurd hstr hne
      | cons x xs => rfl
    · cases hsome

/-- The entries of `ext` behind the first one keep the semicolon in their names. -/
theorem readAttributes_behind : ∀ {ext : List (Bytes × Bytes)} (c : Cookie), ext ≠ [] →
    (∀ e ∈ ext, equals ∉ e.1 ∧ semicolon ∉ e.2) →
      readAttributes dates c (ext.flatMap extText) =
        .ok { c with
          ext := applyAll (fun e l => insertNew e.1 e.2 l)
            (ext.map fun e => (behindName e.1, e.2)) c.ext }
  | [], _, h, _ => absurd rfl h
  | e :: ext, c, _, hplain => by
    obtain ⟨hequals, hvalue⟩ := hplain e List.mem_cons_self
    have hname : equals ∉ behindName e.1 := by
      simp only [behindName, List.mem_cons, not_or]
      exact ⟨by decide, by decide, hequals⟩
    have htext : (e :: ext).flatMap extText =
        behindName e.1 ++ equals :: e.2 ++ ext.flatMap extText := by
      simp [extText, behindName]
    have hskip : skip_whitespaces (behindName e.1 ++ equals :: e.2 ++ ext.flatMap extText) =
        behindName e.1 ++ equals :: e.2 ++ ext.flatMap extText := rfl
    rw [readAttributes_eq, htext, hskip, readAttribute_ext hname (isAttribute_behind e.1) hvalue
      (separated_ext ext).behind]
    cases ext with
    | nil => rfl
    | cons f ext =>
      have hne : (f :: ext).flatMap extText ≠ [] := by simp [extText]
      simp only [if_neg hne]
      rw [readAttributes_behind _ (by simp) fun e' he' => hplain e' (List.mem_cons_of_mem e he')]
      rfl

/-- The entries that come of those that have been written. -/
def extRead : List (Bytes × Bytes) → List (Bytes × Bytes)
  | [] => []
  | e :: ext => e :: ext.map fun e => (behindName e.1, e.2)

theorem readBehind_ext (c : Cookie) : ∀ {ext : List (Bytes × Bytes)},
    (∀ e ∈ ext, PlainName e.1) → (∀ e ∈ ext, semicolon ∉ e.2) →
      readBehind dates c (ext.flatMap extText) =
        .ok { c with ext := applyAll (fun e l => insertNew e.1 e.2 l) (extRead ext) c.ext }
  | [], _, _ => rfl
  | e :: ext, hname, hvalue => by
    have hn := hname e List.mem_cons_self
    have hv := hvalue e List.mem_cons_self
    have htext : ((e :: ext).flatMap extText).drop 1 =
        SP :: (e.1 ++ equals :: e.2) ++ ext.flatMap extText := by
      simp [extText]
    have hskip : skip_whitespaces (SP :: (e.1 ++ equals :: e.2) ++ ext.flatMap extText) =
        e.1 ++ equals :: e.2 ++ ext.flatMap extText := by
      cases hname : e.1 with
      | nil => exact skip_space rfl (by decide) (by decide) _
      | cons x xs =>
        have hblank := hn.blank
        rw [hname] at hblank
        exact skip_space rfl (fun h => hblank.1 (by rw [h]; rfl)) (fun h => hblank.2 (by rw [h]; rfl)) _
    have hne : (e :: ext).flatMap extText ≠ [] := by simp [extText]
    rw [readBehind, if_neg hne, htext, readAttributes_eq, hskip,
      readAttribute_ext hn.equals hn.unknown hv (separated_ext ext).behind]
    cases ext with
    | nil => rfl
    | cons f ext =>
      have hne' : (f :: ext).flatMap extText ≠ [] := by simp [extText]
      simp only [if_neg hne']
      rw [readAttributes_behind _ (by simp) fun e' he' =>
        ⟨(hname e' (List.mem_cons_of_mem e he')).equals, hvalue e' (List.mem_cons_of_mem e he')⟩]
      rfl

/-! ### Numbers -/

theorem strntol_append {a b : Bytes} {n : Int32} (h : strntol a = .ok n) :
    strntol (a ++ b) = b.foldlM (fun ret c =>
      if isdigit c then .ok (ret * 10 + (c.toNat - 48 : Nat).toInt32)
      else .error (.std "Invalid conversion")) n := by
  unfold strntol at h ⊢
  rw [List.foldlM_append, h]
  rfl

theorem isdigit_digitChar {d : Nat} (hd : d < 10) :
    isdigit (digitChar d) = true ∧ (digitChar d).toNat - 48 = d := by
  interval_cases d <;> decide

theorem strntol_digits (n : Nat) :
    strntol ((Nat.digits 10 n).reverse.map digitChar) = .ok (Int32.ofNat n) := by
  induction n using Nat.strongRecOn with
  | _ n ih =>
    by_cases hn : n = 0
    · subst hn
      rfl
    · have hpos : 0 < n := Nat.pos_of_ne_zero hn
      obtain ⟨hdigit, hvalue⟩ := isdigit_digitChar (Nat.mod_lt n (show 0 < 10 by decide))
      rw [Nat.digits_def' (by decide) hpos, List.reverse_cons, List.map_append,
        strntol_append (ih (n / 10) (Nat.div_lt_self hpos (by decide)))]
      simp only [List.map_cons, List.map_nil, List.foldlM_cons, List.foldlM_nil, hdigit, hvalue,
        if_true]
      have hsum : Int32.ofNat (n / 10) * 10 + (n % 10).toInt32 = Int32.ofNat n := by
        have h10 : (10 : Int32) = Int32.ofNat 10 := rfl
        have hmod : (n % 10).toInt32 = Int32.ofNat (n % 10) := rfl
        rw [h10, hmod, ← Int32.ofNat_mul, ← Int32.ofNat_add]
        congr 1
        omega
      rw [hsum]
      rfl

/-- An `int` that is not negative is read back; a minus sign is no digit. -/
theorem strntol_intText (n : Int32) :
    strntol (intText n.toInt) = if 0 ≤ n.toInt then .ok n else .error (.std "Invalid conversion") := by
  unfold intText
  by_cases hneg : n.toInt < 0
  · rw [if_pos hneg, if_neg (by omega)]
    rfl
  · rw [if_neg hneg, if_pos (by omega)]
    have hnat : Int32.ofNat n.toInt.natAbs = n := by
      apply Int32.toInt.inj
      rw [Int32.toInt_ofNat_of_lt]
      · omega
      · have := n.toInt_lt
        omega
    unfold numeral
    by_cases hz : n.toInt.natAbs = 0
    · rw [if_pos hz]
      rw [hz] at hnat
      rw [← hnat]
      rfl
    · rw [if_neg hz, strntol_digits, hnat]

/-! ### The whole cookie -/

theorem setAll_append : ∀ (fs gs : List Field) (c : Cookie), setAll (fs ++ gs) c =
    match setAll fs c with
    | .error e => .error e
    | .ok c => setAll gs c
  | [], _, _ => rfl
  | field :: fs, gs, c => by
    rw [List.cons_append, setAll, setAll]
    cases field.set c with
    | error e => rfl
    | ok c' => exact setAll_append fs gs c'

theorem maxAge_all {c : Cookie} :
    (c.maxAge.all fun n => decide (0 ≤ n.toInt)) = true ↔
      ∀ n, c.maxAge = some n → 0 ≤ n.toInt := by
  rw [Option.all_eq_true]
  exact forall₂_congr fun n _ => decide_eq_true_iff

/-- The attributes in front of the date. -/
theorem setAll_front (c : Cookie) :
    setAll ((c.path.map .path).toList ++ (c.domain.map .domain).toList ++
        (c.maxAge.map .maxAge).toList) (Cookie.new c.name c.value) =
      if (c.maxAge.all fun n => decide (0 ≤ n.toInt)) = true then
        .ok { Cookie.new c.name c.value with path := c.path, domain := c.domain, maxAge := c.maxAge }
      else .error (.std "Invalid conversion") := by
  have hpair : setAll ((c.path.map .path).toList ++ (c.domain.map .domain).toList)
      (Cookie.new c.name c.value) =
        .ok { Cookie.new c.name c.value with path := c.path, domain := c.domain } := by
    cases c.path <;> cases c.domain <;> rfl
  rw [setAll_append, hpair]
  cases c.maxAge with
  | none => rfl
  | some n =>
    by_cases hn : 0 ≤ n.toInt
    · simp [setAll, Field.maxAge, strntol_intText, hn, Except.map]
    · simp [setAll, Field.maxAge, strntol_intText, hn, Except.map]

theorem setAll_fields (dates : Dates) (c : Cookie) :
    setAll (c.fields dates) (Cookie.new c.name c.value) =
      if (c.maxAge.all fun n => decide (0 ≤ n.toInt)) = true then
        match c.expires with
        | none => .ok { c with ext := [] }
        | some date => (dates.fromString (dates.write date)).map fun date =>
          { c with expires := some date, ext := [] }
      else .error (.std "Invalid conversion") := by
  rw [fields, List.append_assoc, List.append_assoc, setAll_append, setAll_front]
  by_cases hn : (c.maxAge.all fun n => decide (0 ≤ n.toInt)) = true
  · rw [if_pos hn, if_pos hn]
    dsimp only
    rw [setAll_append]
    obtain ⟨name, value, path, domain, expires, maxAge, secure, httpOnly, ext⟩ := c
    cases expires with
    | none => cases secure <;> cases httpOnly <;> rfl
    | some date =>
      simp only [Option.map_some, Option.toList_some, setAll, Field.expires]
      cases dates.fromString (dates.write date) with
      | error e => rfl
      | ok date' => cases secure <;> cases httpOnly <;> rfl
  · rw [if_neg hn, if_neg hn]

/-- What stands in the way of a cookie that is read back. -/
structure ReadBack (dates : Dates) (c : Cookie) : Prop where
  maxAge : ∀ n, c.maxAge = some n → 0 ≤ n.toInt
  expires : ∀ date, c.expires = some date → dates.fromString (dates.write date) = .ok date
  ext : c.ext.length ≤ 1

theorem fields_reads (h : c.Plain) : ∀ field ∈ c.fields dates, field.Reads dates := by
  intro field hf
  simp only [fields, List.mem_append, Option.mem_toList, Option.map_eq_some_iff] at hf
  rcases hf with ((((⟨val, hval, rfl⟩ | ⟨val, hval, rfl⟩) | ⟨val, -, rfl⟩) | ⟨val, -, rfl⟩) | hf) | hf
  · exact Field.path_reads dates (h.path val hval)
  · exact Field.domain_reads dates (h.domain val hval)
  · exact Field.maxAge_reads dates val
  · exact Field.expires_reads dates val
  · split at hf
    · rw [List.mem_singleton] at hf
      subst hf
      exact Field.secure_reads dates
    · cases hf
  · split at hf
    · rw [List.mem_singleton] at hf
      subst hf
      exact Field.httpOnly_reads dates
    · cases hf

theorem oneLine_behind {a b : Bytes} (ha : OneLine a) (hb : OneLine b) (hbehind : Behind b) :
    OneLine (a ++ b) := by
  rcases hbehind with rfl | ⟨rest, rfl⟩
  · rwa [List.append_nil]
  · rw [oneLine_append_cons (by decide) (by decide)]
    exact ⟨ha, hb.suffix (List.suffix_cons _ _)⟩

theorem oneLine_separator {text : Bytes} (h : OneLine text) : OneLine (semicolon :: SP :: text) := by
  have hsep : OneLine ([semicolon] ++ SP :: text) :=
    (oneLine_append_cons (by decide) (by decide)).mpr ⟨by decide, h⟩
  exact hsep

theorem oneLine_flatMap {α : Type} {text : α → Bytes} {separate : α → Bytes}
    (hseparate : ∀ x, separate x = semicolon :: SP :: text x) {tail : Bytes} (htail : OneLine tail)
    (hsep : Separated tail) : ∀ {xs : List α}, (∀ x ∈ xs, OneLine (text x)) →
      OneLine (xs.flatMap separate ++ tail) ∧ Separated (xs.flatMap separate ++ tail)
  | [], _ => ⟨htail, hsep⟩
  | x :: xs, h => by
    obtain ⟨hrest, hbehind⟩ := oneLine_flatMap hseparate htail hsep
      fun y hy => h y (List.mem_cons_of_mem x hy)
    rw [List.flatMap_cons, List.append_assoc, hseparate]
    refine ⟨oneLine_behind (oneLine_separator (h x List.mem_cons_self)) hrest hbehind.behind, ?_⟩
    exact .inr ⟨text x ++ (xs.flatMap separate ++ tail), by simp⟩

theorem intText_CR (n : Int) : CR ∉ intText n := by
  intro hin
  have hdigit : CR ∈ numeral 10 n.natAbs := by
    unfold intText at hin
    split at hin
    · rcases List.mem_cons.mp hin with h | h
      · cases h
      · exact h
    · exact hin
  have := numeral_digits _ _ hdigit
  rw [CR_not_digit] at this
  cases this

theorem fields_oneLine (h : c.Readable) : ∀ field ∈ c.fields dates, OneLine field.text := by
  have hequals : ∀ (name val : Bytes), OneLine name → OneLine val → OneLine (name ++ equals :: val) :=
    fun name val hname hval => (oneLine_append_cons (by decide) (by decide)).mpr ⟨hname, hval⟩
  intro field hf
  simp only [fields, List.mem_append, Option.mem_toList, Option.map_eq_some_iff] at hf
  rcases hf with ((((⟨val, hval, rfl⟩ | ⟨val, hval, rfl⟩) | ⟨val, -, rfl⟩) | ⟨val, -, rfl⟩) | hf) | hf
  · exact hequals (lit "Path") val (by decide) (h.path val hval).2
  · exact hequals (lit "Domain") val (by decide) (h.domain val hval).2
  · exact hequals (lit "Max-Age") _ (by decide) (oneLine_of_not_mem (intText_CR _))
  · exact hequals (lit "Expires") _ (by decide) (oneLine_of_not_mem (dates.write_plain val).2)
  · split at hf
    · rw [List.mem_singleton] at hf
      subst hf
      decide
    · cases hf
  · split at hf
    · rw [List.mem_singleton] at hf
      subst hf
      decide
    · cases hf

/-- A readable cookie is written on one line, which does not begin with a space. -/
theorem Readable.write_line (h : c.Readable) (dates : Dates) :
    OneLine (c.write dates) ∧ (c.write dates).head? ≠ some SP := by
  have hentry : ∀ e ∈ c.ext, OneLine (e.1 ++ equals :: e.2) := fun e he =>
    (oneLine_append_cons (by decide) (by decide)).mpr
      ⟨(h.extName e he).oneLine, (h.extValue e he).2⟩
  have hext : OneLine (c.ext.flatMap extText ++ []) ∧ Separated (c.ext.flatMap extText ++ []) :=
    oneLine_flatMap (fun _ => rfl) (by decide) (.inl rfl) hentry
  rw [List.append_nil] at hext
  have hfields : OneLine ((c.fields dates).flatMap fieldText ++ c.ext.flatMap extText) ∧
      Separated ((c.fields dates).flatMap fieldText ++ c.ext.flatMap extText) :=
    oneLine_flatMap (fun _ => rfl) hext.1 hext.2 (fields_oneLine h)
  rw [write_eq]
  refine ⟨(oneLine_append_cons (by decide) (by decide)).mpr
    ⟨h.name_oneLine, oneLine_behind h.value.2 hfields.1 hfields.2.behind⟩, ?_⟩
  cases hname : c.name with
  | nil => exact fun hsp => nomatch hsp
  | cons x xs =>
    have := h.name_space
    rw [hname] at this
    exact this

/-- What is read of a cookie without separators. -/
theorem fromRaw_write (h : c.Plain) : fromRaw dates.fromString (c.write dates) =
    match setAll (c.fields dates) (Cookie.new c.name c.value) with
    | .error e => .error e
    | .ok c' => .ok { c' with ext := applyAll (fun e l => insertNew e.1 e.2 l) (extRead c.ext) c'.ext } := by
  have hname : ∀ x ∈ c.name, x ∉ [equals] := fun x hx hin => by
    rw [List.mem_singleton] at hin
    exact h.name (hin ▸ hx)
  have hsep : Separated ((c.fields dates).flatMap fieldText ++ c.ext.flatMap extText) :=
    separated_fields (separated_ext c.ext)
  have hloop : readBehind dates (Cookie.new c.name c.value)
      ((c.fields dates).flatMap fieldText ++ c.ext.flatMap extText) =
        match setAll (c.fields dates) (Cookie.new c.name c.value) with
        | .error e => .error e
        | .ok c' => readBehind dates c' (c.ext.flatMap extText) :=
    readBehind_fields (separated_ext c.ext) _ (fields_reads h)
  rw [write_eq, fromRaw, match_until_token (by simp) hname]
  simp only [List.drop_succ_cons, List.drop_zero, tokenToSemicolon_behind h.value hsep.behind]
  refine Eq.trans hloop ?_
  cases setAll (c.fields dates) (Cookie.new c.name c.value) with
  | error e => rfl
  | ok c' => exact readBehind_ext c' h.extName h.extValue

theorem applyAll_insertNew_sublist {α β : Type} [BEq α] : ∀ (es l : List (α × β)),
    (applyAll (fun e l => insertNew e.1 e.2 l) es l).Sublist (l ++ es)
  | [], l => by simp
  | e :: es, l => by
    rw [applyAll_cons]
    refine (applyAll_insertNew_sublist es _).trans ?_
    unfold insertNew
    split
    · exact (List.Sublist.refl l).append (List.sublist_cons_self e es)
    · simp

theorem behind_lengths (ext : List (Bytes × Bytes)) :
    ((ext.map fun e => (behindName e.1, e.2)).map fun e => e.1.length).sum =
      (ext.map fun e => e.1.length).sum + 2 * ext.length := by
  induction ext with
  | nil => rfl
  | cons e ext ih =>
    simp only [behindName, List.map_cons, List.sum_cons, List.length_cons] at ih ⊢
    omega

/-- Behind another entry none keeps its name. -/
theorem extRead_length {ext : List (Bytes × Bytes)}
    (h : (applyAll (fun e l => insertNew e.1 e.2 l) (extRead ext) []).Perm ext) :
    ext.length ≤ 1 := by
  have hsub := applyAll_insertNew_sublist (extRead ext) []
  rw [List.nil_append] at hsub
  have hlen : (extRead ext).length = ext.length := by cases ext <;> simp [extRead]
  have hread : (extRead ext).Perm ext := by
    rwa [hsub.eq_of_length (h.length_eq.trans hlen.symm)] at h
  -- the names that are read are longer than those that have been written
  have hsum := (hread.map fun e => e.1.length).sum_nat
  match ext, hsum with
  | [], _ => simp
  | e :: ext, hsum =>
    have hbehind := behind_lengths ext
    simp only [extRead, List.map_cons, List.sum_cons, List.length_cons] at hsum ⊢
    omega

/-- What is read, where it can be read: all but the date and the entries of `ext` are as they were
written. -/
theorem fromRaw_write_ok {c' : Cookie} (h : c.Plain) :
    fromRaw dates.fromString (c.write dates) = .ok c' ↔
      (∀ n, c.maxAge = some n → 0 ≤ n.toInt) ∧
        ∃ expires, (∀ date, c.expires = some date →
            ∃ date', dates.fromString (dates.write date) = .ok date' ∧ expires = some date') ∧
          (c.expires = none → expires = none) ∧
          c' = { c with
            expires, ext := applyAll (fun e l => insertNew e.1 e.2 l) (extRead c.ext) [] } := by
  rw [fromRaw_write h, setAll_fields]
  by_cases hn : (c.maxAge.all fun n => decide (0 ≤ n.toInt)) = true
  · rw [if_pos hn]
    cases hexp : c.expires with
    | none =>
      dsimp only
      rw [Except.ok.injEq]
      constructor
      · rintro rfl
        exact ⟨maxAge_all.mp hn, none, fun date hd => (nomatch hd), fun _ => rfl, by rw [← hexp]⟩
      · rintro ⟨-, expires, -, hnone, rfl⟩
        rw [hnone rfl, ← hexp]
    | some date =>
      cases hdate : dates.fromString (dates.write date) with
      | error e =>
        simp only [hdate, Except.map, reduceCtorEq, false_iff]
        rintro ⟨-, expires, hsome, -⟩
        obtain ⟨date', hread, -⟩ := hsome date rfl
        rw [hdate] at hread
        cases hread
      | ok date' =>
        simp only [hdate, Except.map, Except.ok.injEq]
        constructor
        · rintro rfl
          refine ⟨maxAge_all.mp hn, some date', ?_, fun hd => (nomatch hd), rfl⟩
          rintro d hd
          cases hd
          exact ⟨date', hdate, rfl⟩
        · rintro ⟨-, expires, hsome, -, rfl⟩
          obtain ⟨d, hread, rfl⟩ := hsome date rfl
          rw [hdate] at hread
          cases hread
          rfl
  · rw [if_neg hn]
    simp only [reduceCtorEq, false_iff]
    exact fun hall => hn (maxAge_all.mpr hall.1)

/-- **Which cookies are read back.**  Of the cookies without a separator in their texts these
are the ones whose age is not negative, whose date the date library reads back, and that have
one entry of `ext` at most. -/
theorem fromRaw_write_iff (h : c.Plain) :
    fromRaw dates.fromString (c.write dates) = .ok c ↔ c.ReadBack dates := by
  rw [fromRaw_write_ok h]
  constructor
  · rintro ⟨hn, expires, hsome, -, heq⟩
    have hext := congrArg Cookie.ext heq
    have hexpires := congrArg Cookie.expires heq
    refine ⟨hn, fun date hdate => ?_, extRead_length (.of_eq hext.symm)⟩
    obtain ⟨date', hread, hsame⟩ := hsome date hdate
    obtain rfl : date = date' := by
      rw [← Option.some.injEq, ← hdate, ← hsame]
      exact hexpires
    exact hread
  · rintro ⟨hn, hexpires, hext⟩
    have hread : applyAll (fun e l => insertNew e.1 e.2 l) (extRead c.ext) [] = c.ext := by
      match c.ext, hext with
      | [], _ => rfl
      | [e], _ => rfl
      | e :: f :: ext, hext => simp at hext
    exact ⟨hn, c.expires, fun date hdate => ⟨date, hexpires date hdate, hdate⟩, fun hnone => hnone,
      by rw [hread]⟩

/-- Name and value come back in any case. -/
theorem fromRaw_write_name {c' : Cookie} (h : c.Plain)
    (hread : fromRaw dates.fromString (c.write dates) = .ok c') :
    c'.name = c.name ∧ c'.value = c.value := by
  obtain ⟨-, expires, -, -, rfl⟩ := (fromRaw_write_ok h).mp hread
  exact ⟨rfl, rfl⟩

end Cookie

end Pistache.Http
