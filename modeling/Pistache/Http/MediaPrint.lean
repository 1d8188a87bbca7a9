import Pistache.Http.MediaGrammar

/-!
# Printing media types

The constructors of `MediaType`, `setQuality`, `setParam` and `toString`.  A media type that has
been parsed is printed as the text that it was parsed from, whatever has been set since; one that
has been put together is printed from its members, the parameters in the order of the table, which
is unspecified.  A quality is given in thousandths here, ten for each hundredth of `Q`.

Principal results:

* `MediaType.parse_members` — what the printed members are read as.
* `MediaType.printed_parsed` — the media types that come back from their text.
-/

set_option autoImplicit false

namespace Pistache.Http.Mime

open Header (Stops)
open AcceptEncoding (QValue)
open Replay (applyAll insertNew SameTable)
open MediaType (semicolon plus slash equals)

/-! ## Qualities -/

/-- `Q`: the constructor throws above 100. -/
structure Q where
  val_ : Nat
  bounded : val_ ≤ 100

def digit (n : Nat) : UInt8 := UInt8.ofNat (48 + n)

/-- `Q::toString`, of a number of hundredths. -/
def qualityString (val_ : Nat) : Bytes :=
  if val_ = 0 then lit "q=0"
  else if val_ = 100 then lit "q=1"
  else if val_ % 10 = 0 then lit "q=0." ++ [digit (val_ / 10)]
  else lit "q=0." ++ [digit (val_ / 10), digit (val_ % 10)]

/-! ## Media types -/

/-- The name of a value in a table, empty if there is none. -/
def nameOf {α : Type} [DecidableEq α] (table : List (Bytes × α)) (value : α) : Bytes :=
  ((table.find? fun e => e.2 = value).map Prod.fst).getD []

def topString (top : «Type») : Bytes := nameOf mimeTypes top

def subString (sub : Subtype) : Bytes := nameOf mimeSubtypes sub

def suffixString (suffix : Suffix) : Bytes :=
  if nameOf mimeSuffixes suffix = [] then [] else plus :: nameOf mimeSuffixes suffix

namespace MediaType

/-- `MediaType::setQuality`. -/
def setQuality (media : MediaType) (quality : Q) : MediaType :=
  { media with q_ := some (10 * quality.val_) }

/-- `MediaType::setParam`. -/
def setParam (media : MediaType) (name value : Bytes) : MediaType :=
  { media with params := (media.params.filter fun e => e.1 ≠ name) ++ [(name, value)] }

def paramString (param : Bytes × Bytes) : Bytes := lit "; " ++ param.1 ++ equals :: param.2

/-- `MediaType::toString`, with the parameters in the order they are in. -/
def toString (media : MediaType) : Bytes :=
  if media.raw_ ≠ [] then media.raw_
  else
    topString media.top_ ++ [slash] ++ subString media.sub_ ++
      (if media.suffix_ ≠ .None then suffixString media.suffix_ else []) ++
      media.q_.elim [] (fun n => lit "; " ++ qualityString (n / 10)) ++
      media.params.flatMap paramString

/-- The constructors: without arguments, of a text that is not or that is parsed, and of a type, a
subtype and a suffix. -/
inductive Origin where
  | empty
  | raw (text : Bytes)
  | parsed (text : Bytes)
  | members (top : «Type») (sub : Subtype) (suffix : Suffix)

def Origin.make : Origin → Except Exn MediaType
  | .empty => .ok new
  | .raw text => .ok { new with raw_ := text }
  | .parsed text => fromString text
  | .members top sub suffix => .ok { new with top_ := top, sub_ := sub, suffix_ := suffix }

inductive Change where
  | setQuality (quality : Q)
  | setParam (name value : Bytes)

def change (media : MediaType) : Change → MediaType
  | .setQuality quality => media.setQuality quality
  | .setParam name value => media.setParam name value

/-- A media type, changed any number of times. -/
def made (origin : Origin) (changes : List Change) : Except Exn MediaType :=
  origin.make.map (changes.foldl change)

/-- `operator==`, with the qualities and the parameters. -/
structure Same (a b : MediaType) : Prop where
  top : a.top_ = b.top_
  sub : a.sub_ = b.sub_
  suffix : a.suffix_ = b.suffix_
  quality : a.q_ = b.q_
  params : SameTable a.params b.params

/-- The media type comes back from its text, whatever the order of the parameters. -/
def ComesBack (media : MediaType) : Prop :=
  ∀ order, order.Perm media.params →
    ∃ media', fromString (toString { media with params := order }) = .ok media' ∧ Same media media'

/-- A parameter whose text is read as the parameter. -/
structure Settable (param : Bytes × Bytes) : Prop where
  name : equals ∉ param.1
  nameHead : ∀ c, param.1.head? = some c →
    c ≠ SP ∧ c ≠ semicolon ∧ tolower c ≠ 113 ∧ c ≠ 0 ∧ c ≠ eofChar
  value : param.2 ≠ [] ∧ ∀ c ∈ param.2, c ≠ SP ∧ c ≠ semicolon
  valueHead : ∀ c, param.2.head? = some c → c ≠ 0 ∧ c ≠ eofChar

/-- A parsed media type that has not been changed, or one of members that have a name, or an empty
name that something else follows, whose parameters are settable. -/
def Printable (changes : List Change) (media : MediaType) : Origin → Prop
  | .parsed _ => changes = []
  | .members top sub suffix =>
    top ≠ .None ∧ sub ≠ .None ∧ sub ≠ .Vendor ∧ suffix ≠ .Ext ∧
      (sub = .Ext → suffix ≠ .None ∨ changes ≠ []) ∧ ∀ param ∈ media.params, Settable param
  | _ => False

/-! ## Names -/

theorem topString_entry {top : «Type»} (h : top ≠ .None) :
    entry mimeTypes (topString top) = some top := by
  cases top <;> first | exact absurd rfl h | decide

theorem subString_entry {sub : Subtype} (h : sub ≠ .None ∧ sub ≠ .Vendor ∧ sub ≠ .Ext) :
    entry mimeSubtypes (subString sub) = some sub := by
  cases sub <;> first | exact absurd rfl h.1 | exact absurd rfl h.2.1 | exact absurd rfl h.2.2 |
    decide

set_option maxRecDepth 8000 in
/-- The suffixes with a name. -/
theorem suffixString_named {suffix : Suffix} (h : suffix ≠ .None ∧ suffix ≠ .Ext) :
    ∃ X, suffixString suffix = plus :: X ∧ Token X ∧ entry mimeSuffixes X = some suffix := by
  refine ⟨nameOf mimeSuffixes suffix, ?_⟩
  cases suffix <;> first | exact absurd rfl h.1 | exact absurd rfl h.2 | decide

/-! ## Printed qualities -/

theorem digit_toNat {n : Nat} (h : n ≤ 9) : (digit n).toNat = 48 + n := by
  rw [digit, UInt8.toNat_ofNat']
  omega

theorem digit_isdigit {n : Nat} (h : n ≤ 9) : isdigit (digit n) = true := by
  have := digit_toNat h
  rw [isdigit, decide_eq_true_iff, UInt8.le_iff_toNat_le, UInt8.le_iff_toNat_le, this]
  exact ⟨Nat.le_add_right 48 n, Nat.add_le_add_left h 48⟩

/-- **A quality is printed as a quality value.** -/
theorem qualityString_value {val_ : Nat} (h : val_ ≤ 100) :
    ∃ text, qualityString val_ = 113 :: equals :: text ∧ QValue 1 text (10 * val_) := by
  have front : lit "q=0." = [113, equals, 48, Header.dot] := by decide
  have tens : val_ ≠ 100 → val_ / 10 ≤ 9 := by omega
  unfold qualityString
  split
  · next zero =>
    subst zero
    exact ⟨[48], by decide, .zero⟩
  · split
    · next hundred =>
      subst hundred
      exact ⟨[49], by decide, .one⟩
    · next notHundred =>
      have first := digit_toNat (tens notHundred)
      have first_digit := digit_isdigit (tens notHundred)
      split
      · next ten =>
        have count : AcceptEncoding.thousandths [digit (val_ / 10)] = 10 * val_ := by
          show ((digit (val_ / 10)).toNat - 48) * 100 + 0 + 0 = 10 * val_
          rw [first]
          omega
        have value : QValue 1 (48 :: Header.dot :: [digit (val_ / 10)])
            (AcceptEncoding.thousandths [digit (val_ / 10)]) :=
          .fraction _ (by simpa using first_digit) (by simp) (by simp)
        rw [count] at value
        exact ⟨_, by rw [front]; rfl, value⟩
      · have ones : val_ % 10 ≤ 9 := by omega
        have second := digit_toNat ones
        have second_digit := digit_isdigit ones
        have count :
            AcceptEncoding.thousandths [digit (val_ / 10), digit (val_ % 10)] = 10 * val_ := by
          show ((digit (val_ / 10)).toNat - 48) * 100 + ((digit (val_ % 10)).toNat - 48) * 10 + 0 =
            10 * val_
          rw [first, second]
          omega
        have value : QValue 1 (48 :: Header.dot :: [digit (val_ / 10), digit (val_ % 10)])
            (AcceptEncoding.thousandths [digit (val_ / 10), digit (val_ % 10)]) :=
          .fraction _ (by simpa using ⟨first_digit, second_digit⟩) (by simp) (by simp)
        rw [count] at value
        exact ⟨_, by rw [front]; rfl, value⟩

/-! ## Reading the members -/

/-- The printed suffix is read as the suffix. -/
theorem parseSuffix_string {suffix : Suffix} (h : suffix ≠ .Ext) {rest : Bytes}
    (hrest : AtParameter rest) (media : MediaType) (fresh : media.suffix_ = .None) :
    ∃ media', parseSuffix media ((if suffix ≠ .None then suffixString suffix else []) ++ rest) =
        .ok (media', rest) ∧
      media'.top_ = media.top_ ∧ media'.sub_ = media.sub_ ∧ media'.suffix_ = suffix ∧
      media'.q_ = media.q_ ∧ media'.params = media.params := by
  rcases Decidable.em (suffix = .None) with rfl | named
  · refine ⟨media, ?_, rfl, rfl, fresh, rfl, rfl⟩
    rw [if_neg (by simp)]
    exact parseSuffix_none hrest media
  · obtain ⟨X, text, token, found⟩ := suffixString_named ⟨named, h⟩
    have whole : ∀ e ∈ mimeSuffixes, e.1 <+: X.map tolower → e.1 = X.map tolower := by
      intro e he le
      rw [mimeSuffixes_distinct.free e he _ (entry_mem found) le]
    obtain ⟨index, read⟩ := parseSuffix_token token whole hrest media
    refine ⟨{ media with suffix_ := suffixNamed X, rawSuffixIndex := index }, ?_, rfl, rfl, ?_, rfl,
      rfl⟩
    · rw [if_pos named, text, List.cons_append]
      exact read
    · show suffixNamed X = suffix
      rw [suffixNamed, found]
      rfl

/-- No name of the table begins like a suffix or like a parameter. -/
theorem mimeSubtypes_heads : ∀ e ∈ mimeSubtypes, e.1 ≠ [] ∧ e.1.head? ≠ some plus ∧
    e.1.head? ≠ some semicolon := by
  decide

/-- The printed subtype is read as the subtype. -/
theorem parseSub_string {sub : Subtype} (h : sub ≠ .None ∧ sub ≠ .Vendor) {rest : Bytes}
    (hrest : rest = [] ∨ ∃ c u, rest = c :: u ∧ c ∈ [semicolon, plus]) (media : MediaType) :
    ∃ index, parseSub media (subString sub ++ rest) =
      ({ media with sub_ := sub, rawSubIndex := index }, rest) := by
  rcases Decidable.em (sub = .Ext) with rfl | named
  · have unknown : ∀ e ∈ mimeSubtypes, ¬ e.1 <+: ([] ++ rest).map tolower := by
      intro e he le
      obtain ⟨nonempty, noPlus, noSemicolon⟩ := mimeSubtypes_heads e he
      rw [List.nil_append] at le
      rcases hrest with rfl | ⟨c, u, rfl, hc⟩
      · exact nonempty (List.prefix_nil.mp le)
      · obtain ⟨v, hv⟩ := le
        cases name : e.1 with
        | nil => exact nonempty name
        | cons d w =>
          rw [name] at hv noPlus noSemicolon
          have first : d = tolower c := (List.cons.inj hv).1
          rcases List.mem_cons.mp hc with rfl | hc
          · exact noSemicolon (by rw [first]; rfl)
          · rw [List.mem_singleton] at hc
            subst hc
            exact noPlus (by rw [first]; rfl)
    obtain ⟨index, read⟩ := parseSub_unknown (S := []) (by simp) unknown hrest media
    refine ⟨index, ?_⟩
    have empty : subString .Ext = [] := by decide
    have other : ¬ lit "vnd." <+: [] := by decide
    rw [empty, read, if_neg other]
  · refine ⟨media.rawSubIndex, ?_⟩
    rw [parseSub_entry (subString_entry ⟨h.1, h.2, named⟩)]

/-! ## Reading the parameters -/

/-- The parameters of a text: the quality if there is one, and the others. -/
def printed (q_ : Option Bytes) (params : List (Bytes × Bytes)) : List Parameter :=
  (q_.elim [] fun text => [⟨1, [113], text⟩]) ++ params.map fun param => ⟨1, param.1, param.2⟩

theorem Settable.notQuality {param : Bytes × Bytes} (h : Settable param) :
    Parameter.isQuality ⟨1, param.1, param.2⟩ = false := by
  rw [Parameter.isQuality, decide_eq_false_iff_not]
  intro letter
  obtain ⟨c, name, small⟩ := List.map_eq_singleton_iff.mp letter
  dsimp only at name
  exact (h.nameHead c (by rw [name]; rfl)).2.2.1 small

theorem Settable.readable {param : Bytes × Bytes} (h : Settable param) :
    Readable ⟨1, param.1, param.2⟩ := by
  refine ⟨⟨⟨h.name, ?_, ?_⟩, h.value, ?_⟩, ?_, ?_⟩
  · intro blank
    exact (h.nameHead SP blank).1 rfl
  · intro sign
    exact (h.nameHead semicolon sign).2.1 rfl
  · intro letter
    have := (h.nameHead 113 (by rw [show param.1 = [113] from letter]; rfl)).2.2.1
    exact absurd (by decide) this
  · intro letter
    rw [List.head?_map] at letter
    obtain ⟨c, head, small⟩ := Option.map_eq_some_iff.mp letter
    exact absurd small (h.nameHead c head).2.2.1
  · rintro c (head | head)
    · exact (h.nameHead c head).2.2.2
    · exact h.valueHead c head

theorem quality_readable {text : Bytes} {n : Nat} (h : QValue 1 text n) :
    Readable ⟨1, [113], text⟩ := by
  have nonempty : text ≠ [] := by
    cases h <;> exact List.cons_ne_nil _ _
  have plain : ∀ c ∈ text, c ≠ SP ∧ c ≠ semicolon ∧ c ≠ 0 ∧ c ≠ eofChar := by
    intro c hc
    rcases h.chars c hc with rfl | number
    · decide
    · refine ⟨?_, ?_, ?_, ?_⟩ <;> rintro rfl <;> exact absurd number (by decide)
  have name : equals ∉ ([113] : Bytes) ∧ ([113] : Bytes).head? ≠ some SP ∧
      ([113] : Bytes).head? ≠ some semicolon := by decide
  refine ⟨⟨name, ⟨nonempty, fun c hc => ?_⟩, fun _ => ⟨n, h⟩⟩, fun _ => ⟨rfl, n, h⟩, ?_⟩
  · exact ⟨(plain c hc).1, (plain c hc).2.1⟩
  · rintro c (head | head)
    · obtain rfl : 113 = c := Option.some.inj head
      decide
    · exact (plain c (List.mem_of_head? head)).2.2

/-- The parameters that are no quality are inserted. -/
theorem foldl_add_params (ps : List Parameter) (media : MediaType) :
    (ps.foldl add media).params =
      applyAll (fun (e : Bytes × Bytes) l => insertNew e.1 e.2 l)
        ((ps.filter fun p => !p.isQuality).map fun p => (p.name, p.value)) media.params := by
  induction ps generalizing media with
  | nil => rfl
  | cons p ps ih =>
    rw [List.foldl_cons, ih, List.filter_cons]
    unfold add
    cases hq : p.isQuality with
    | true => rfl
    | false => rfl

/-- **Printed parameters are read** as the quality and as the others, in their order. -/
theorem foldl_printed {q_ : Option Bytes} {params : List (Bytes × Bytes)} {media : MediaType}
    (hparams : ∀ param ∈ params, Settable param) (nodup : (params.map Prod.fst).Nodup)
    (fresh : media.q_ = none ∧ media.params = []) :
    ((printed q_ params).foldl add media).q_ =
        q_.bind (fun text => (Header.strToQvalue text).map Prod.fst) ∧
      ((printed q_ params).foldl add media).params = params := by
  have others : ∀ p ∈ params.map fun param => (⟨1, param.1, param.2⟩ : Parameter),
      p.isQuality = false := by
    intro p hp
    obtain ⟨param, hparam, rfl⟩ := List.mem_map.mp hp
    exact (hparams param hparam).notQuality
  constructor
  · have none : (params.map fun param => (⟨1, param.1, param.2⟩ : Parameter)).reverse.find?
        Parameter.isQuality = none := by
      rw [List.find?_eq_none]
      intro p hp
      rw [others p (List.mem_reverse.mp hp)]
      exact Bool.false_ne_true
    rw [foldl_add_quality, printed, List.reverse_append, List.find?_append, none, Option.none_or,
      fresh.1]
    cases q_ with
    | none => rfl
    | some text => rfl
  · have kept : ((printed q_ params).filter fun p => !p.isQuality).map
        (fun p => (p.name, p.value)) = params := by
      have all : (params.map fun param => (⟨1, param.1, param.2⟩ : Parameter)).filter
          (fun p => !p.isQuality) = params.map fun param => ⟨1, param.1, param.2⟩ :=
        List.filter_eq_self.mpr fun p hp => by rw [others p hp]; rfl
      have own : (q_.elim [] fun text => [(⟨1, [113], text⟩ : Parameter)]).filter
          (fun p => !p.isQuality) = [] := by
        cases q_ with
        | none => rfl
        | some text => rfl
      rw [printed, List.filter_append, own, all, List.nil_append, List.map_map]
      exact List.map_id params
    rw [foldl_add_params, kept, fresh.2, Replay.applyAll_insertNew_of_nodup nodup, List.nil_append]

theorem paramString_write (param : Bytes × Bytes) :
    paramString param = Parameter.write ⟨1, param.1, param.2⟩ := by
  have sign : lit "; " = [semicolon, SP] := by decide
  rw [paramString, sign]
  simp [Parameter.write]

/-- The text of a quality, if there is one. -/
theorem quality_text {quality : Option Nat}
    (hquality : ∀ n, quality = some n → ∃ q : Q, n = 10 * q.val_) :
    ∃ text : Option Bytes,
      quality.elim [] (fun n => lit "; " ++ qualityString (n / 10)) =
        (printed text []).flatMap Parameter.write ∧
      (∀ t, text = some t → Readable ⟨1, [113], t⟩) ∧
      text.bind (fun text => (Header.strToQvalue text).map Prod.fst) = quality ∧
      (quality ≠ none → text ≠ none) := by
  cases quality with
  | none => exact ⟨none, rfl, by simp, rfl, by simp⟩
  | some n =>
    obtain ⟨q, rfl⟩ := hquality n rfl
    obtain ⟨text, shape, value⟩ := qualityString_value q.bounded
    refine ⟨some text, ?_, ?_, ?_, by simp⟩
    · have sign : lit "; " = [semicolon, SP] := by decide
      have ten : 10 * q.val_ / 10 = q.val_ := Nat.mul_div_cancel_left _ (by decide)
      rw [Option.elim_some, ten, shape, sign]
      simp [printed, Parameter.write]
    · rintro t ⟨⟩
      exact quality_readable value
    · rw [Option.bind_some, AcceptEncoding.strToQvalue_qvalue value]
      rfl

theorem subString_ne {sub : Subtype} (h : sub ≠ .None ∧ sub ≠ .Vendor ∧ sub ≠ .Ext) :
    subString sub ≠ [] := by
  intro empty
  have found := entry_mem (subString_entry h)
  rw [empty] at found
  exact (mimeSubtypes_heads _ found).1 rfl

/-- What is printed behind the subtype. -/
def tail (suffix : Suffix) (text : Option Bytes) (params : List (Bytes × Bytes)) : Bytes :=
  (if suffix ≠ .None then suffixString suffix else []) ++
    (printed text params).flatMap Parameter.write

theorem tail_head {suffix : Suffix} (h : suffix ≠ .Ext) (text : Option Bytes)
    (params : List (Bytes × Bytes)) : tail suffix text params = [] ∨
      ∃ c u, tail suffix text params = c :: u ∧ c ∈ [semicolon, plus] := by
  unfold tail
  rcases Decidable.em (suffix = .None) with rfl | named
  · rw [if_neg (by simp), List.nil_append]
    exact (atParameter_write (printed text params)).imp_right
      fun ⟨u, eq⟩ => ⟨semicolon, u, eq, by simp⟩
  · obtain ⟨X, eq, -⟩ := suffixString_named ⟨named, h⟩
    rw [if_pos named, eq]
    exact .inr ⟨plus, _, rfl, by simp⟩

theorem tail_ne {suffix : Suffix} (h : suffix ≠ .Ext) {text : Option Bytes}
    {params : List (Bytes × Bytes)} (some : suffix ≠ .None ∨ text ≠ none ∨ params ≠ []) :
    tail suffix text params ≠ [] := by
  unfold tail
  rcases Decidable.em (suffix = .None) with none | named
  · refine List.append_ne_nil_of_right_ne_nil _ ?_
    have printed_ne : printed text params ≠ [] := by
      rcases some with named | given | given
      · exact absurd none named
      · cases text with
        | none => exact absurd rfl given
        | some t => exact List.cons_ne_nil _ _
      · exact List.append_ne_nil_of_right_ne_nil _ (by simpa using given)
    obtain ⟨p, ps, eq⟩ := List.exists_cons_of_ne_nil printed_ne
    rw [eq]
    exact List.cons_ne_nil _ _
  · obtain ⟨X, eq, -⟩ := suffixString_named ⟨named, h⟩
    rw [if_pos named, eq]
    exact List.cons_ne_nil _ _

/-- The text of a media type that has been put together. -/
theorem toString_members {media : MediaType} {text : Option Bytes} (raw : media.raw_ = [])
    (quality : media.q_.elim [] (fun n => lit "; " ++ qualityString (n / 10)) =
      (printed text []).flatMap Parameter.write) :
    toString media = topString media.top_ ++
      slash :: (subString media.sub_ ++ tail media.suffix_ text media.params) := by
  have paramsText : media.params.flatMap paramString =
      (media.params.map fun param => (⟨1, param.1, param.2⟩ : Parameter)).flatMap
        Parameter.write := by
    rw [List.flatMap_map]
    exact List.flatMap_congr fun param _ => paramString_write param
  have parts : (printed text media.params).flatMap Parameter.write =
      (printed text []).flatMap Parameter.write ++ media.params.flatMap paramString := by
    rw [paramsText, printed, printed, List.flatMap_append, List.map_nil, List.append_nil]
  unfold toString tail
  rw [if_neg (by simp [raw]), parts, ← quality]
  simp

/-- The members of a media type that has been put together and changed. -/
structure Assembled (media : MediaType) : Prop where
  raw : media.raw_ = []
  quality : ∀ n, media.q_ = some n → ∃ q : Q, n = 10 * q.val_
  nodup : (media.params.map Prod.fst).Nodup

/-- **What the printed members are read as.** -/
theorem parse_members {media : MediaType} (h : Assembled media) (htop : media.top_ ≠ .None)
    (hsub : media.sub_ ≠ .None ∧ media.sub_ ≠ .Vendor) (hsuffix : media.suffix_ ≠ .Ext)
    (hsome : media.sub_ = .Ext → media.suffix_ ≠ .None ∨ media.q_ ≠ none ∨ media.params ≠ [])
    (hparams : ∀ param ∈ media.params, Settable param) :
    ∃ media', fromString (toString media) = .ok media' ∧
      media'.top_ = media.top_ ∧ media'.sub_ = media.sub_ ∧ media'.suffix_ = media.suffix_ ∧
      media'.q_ = media.q_ ∧ media'.params = media.params := by
  obtain ⟨text, qualityText, readableQuality, value, given⟩ := quality_text h.quality
  have readable : ∀ p ∈ printed text media.params, Readable p := by
    intro p hp
    rcases List.mem_append.mp hp with hp | hp
    · cases text with
      | none => cases hp
      | some t =>
        rw [List.mem_singleton.mp hp]
        exact readableQuality t rfl
    · obtain ⟨param, hparam, rfl⟩ := List.mem_map.mp hp
      exact (hparams param hparam).readable
  have more : subString media.sub_ ++ tail media.suffix_ text media.params ≠ [] := by
    rcases Decidable.em (media.sub_ = .Ext) with ext | named
    · refine List.append_ne_nil_of_right_ne_nil _ (tail_ne hsuffix ?_)
      exact (hsome ext).imp_right fun some => some.imp_left given
    · exact List.append_ne_nil_of_left_ne_nil (subString_ne ⟨hsub.1, hsub.2, named⟩) _
  rw [toString_members h.raw qualityText]
  let start : MediaType := { new with
    raw_ := topString media.top_ ++
      slash :: (subString media.sub_ ++ tail media.suffix_ text media.params)
    top_ := media.top_ }
  obtain ⟨index, readSub⟩ :=
    parseSub_string hsub (tail_head hsuffix text media.params) start
  obtain ⟨media₂, readSuffix, top, sub, suffix, q, params⟩ := parseSuffix_string hsuffix
    (atParameter_write (printed text media.params))
    { start with sub_ := media.sub_, rawSubIndex := index } rfl
  have parsed : fromString (topString media.top_ ++
      slash :: (subString media.sub_ ++ tail media.suffix_ text media.params)) =
        .ok ((printed text media.params).foldl add media₂) :=
    parseRaw_steps .nil readable (parseTop_type (topString_entry htop) more) readSub readSuffix
  obtain ⟨kept_top, kept_sub, kept_suffix⟩ := foldl_add_type (printed text media.params) media₂
  have kept : ((printed text media.params).foldl add media₂).q_ =
        text.bind (fun text => (Header.strToQvalue text).map Prod.fst) ∧
      ((printed text media.params).foldl add media₂).params = media.params :=
    foldl_printed hparams h.nodup ⟨q, params⟩
  refine ⟨_, parsed, kept_top.trans top, kept_sub.trans sub, kept_suffix.trans suffix, ?_, kept.2⟩
  rw [kept.1, value]

/-! ## Changes -/

theorem Assembled.change {media : MediaType} (h : Assembled media) (c : Change) :
    Assembled (media.change c) := by
  cases c with
  | setQuality quality =>
    refine ⟨h.raw, ?_, h.nodup⟩
    rintro n ⟨⟩
    exact ⟨quality, rfl⟩
  | setParam name value =>
    refine ⟨h.raw, h.quality, ?_⟩
    show (((media.params.filter fun e => e.1 ≠ name) ++ [(name, value)]).map Prod.fst).Nodup
    rw [List.map_append, List.nodup_append]
    refine ⟨h.nodup.sublist (List.filter_sublist.map Prod.fst), by simp, ?_⟩
    rintro a ha b hb rfl
    obtain ⟨e, he, rfl⟩ := List.mem_map.mp ha
    have other := (List.mem_filter.mp he).2
    rw [List.map_singleton, List.mem_singleton] at hb
    exact of_decide_eq_true other hb

/-- Changes leave the type as it is, and what is put together stays so. -/
theorem foldl_change (changes : List Change) {media : MediaType} (h : Assembled media) :
    Assembled (changes.foldl change media) ∧ (changes.foldl change media).top_ = media.top_ ∧
      (changes.foldl change media).sub_ = media.sub_ ∧
      (changes.foldl change media).suffix_ = media.suffix_ := by
  induction changes generalizing media with
  | nil => exact ⟨h, rfl, rfl, rfl⟩
  | cons c changes ih =>
    obtain ⟨assembled, top, sub, suffix⟩ := ih (h.change c)
    refine ⟨assembled, top.trans ?_, sub.trans ?_, suffix.trans ?_⟩
    all_goals cases c <;> rfl

theorem change_some (media : MediaType) (c : Change) :
    (media.change c).q_ ≠ none ∨ (media.change c).params ≠ [] := by
  cases c with
  | setQuality quality => exact .inl (by simp [change, setQuality])
  | setParam name value => exact .inr (by simp [change, setParam])

/-- A media type that has been changed has a quality or a parameter. -/
theorem foldl_change_some (changes : List Change) {media : MediaType}
    (h : media.q_ ≠ none ∨ media.params ≠ []) :
    (changes.foldl change media).q_ ≠ none ∨ (changes.foldl change media).params ≠ [] := by
  induction changes generalizing media with
  | nil => exact h
  | cons c changes ih => exact ih (change_some media c)

/-- **The media types that come back from their text**: those that have been parsed and not changed,
and those that have been put together of members with a text, and then changed in any way. -/
theorem printed_parsed {origin : Origin} {changes : List Change} {media : MediaType}
    (h : made origin changes = .ok media) (printable : Printable changes media origin) :
    ComesBack media := by
  intro order perm
  cases origin with
  | empty => exact printable.elim
  | raw text => exact printable.elim
  | parsed text =>
    obtain rfl : changes = [] := printable
    have parsed : fromString text = .ok media := by
      cases found : fromString text with
      | error e =>
        have error : made (.parsed text) [] = .error e := by
          rw [made, Origin.make, found]
          rfl
        rw [error] at h
        cases h
      | ok m =>
        have ok : made (.parsed text) [] = .ok m := by
          rw [made, Origin.make, found]
          rfl
        exact congrArg Except.ok (Except.ok.inj (ok.symm.trans h))
    have raw := parseRaw_raw parsed
    have nonempty : media.raw_ ≠ [] := by
      obtain ⟨p, rest, begins, -⟩ := parseRaw_type parsed
      rw [raw, begins]
      simp
    refine ⟨media, ?_, rfl, rfl, rfl, rfl, fun key => rfl⟩
    rw [toString, if_pos nonempty]
    show fromString media.raw_ = .ok media
    rw [raw]
    exact parsed
  | members top sub suffix =>
    obtain ⟨htop, noSub, noVendor, hsuffix, hsome, hparams⟩ := printable
    have fresh : Assembled { new with top_ := top, sub_ := sub, suffix_ := suffix } :=
      ⟨rfl, by rintro n ⟨⟩, List.nodup_nil⟩
    have eq : changes.foldl change { new with top_ := top, sub_ := sub, suffix_ := suffix } =
        media := Except.ok.inj h
    obtain ⟨assembled, keptTop, keptSub, keptSuffix⟩ := foldl_change changes fresh
    rw [eq] at assembled keptTop keptSub keptSuffix
    have given : sub = .Ext → suffix ≠ .None ∨ media.q_ ≠ none ∨ media.params ≠ [] := by
      intro ext
      refine (hsome ext).imp_right fun changed => ?_
      obtain ⟨c, rest, cons⟩ := List.exists_cons_of_ne_nil changed
      rw [cons, List.foldl_cons] at eq
      rw [← eq]
      exact foldl_change_some rest (change_some _ c)
    have some : media.sub_ = .Ext → media.suffix_ ≠ .None ∨ media.q_ ≠ none ∨ order ≠ [] := by
      rw [keptSub, keptSuffix]
      intro ext
      refine (given ext).imp_right fun some => some.imp_right fun params none => params ?_
      rw [none] at perm
      exact List.nil_perm.mp perm
    have ordered : Assembled { media with params := order } :=
      ⟨assembled.raw, assembled.quality, (perm.map Prod.fst).nodup_iff.mpr assembled.nodup⟩
    obtain ⟨media', parsed, top_eq, sub_eq, suffix_eq, q_eq, params_eq⟩ :=
      parse_members ordered (fun none => htop (keptTop.symm.trans none))
        ⟨fun none => noSub (keptSub.symm.trans none),
          fun vendor => noVendor (keptSub.symm.trans vendor)⟩
        (fun ext => hsuffix (keptSuffix.symm.trans ext)) some
        fun param hparam => hparams param (perm.mem_iff.mp hparam)
    refine ⟨media', parsed, top_eq.symm, sub_eq.symm, suffix_eq.symm, q_eq.symm, ?_⟩
    intro key
    rw [params_eq]
    exact Replay.lookup_congr (fun v => perm.mem_iff.symm)
      ((perm.map Prod.fst).nodup_iff.mpr assembled.nodup)

set_option maxRecDepth 8000 in
/-- A type, a subtype and a suffix, with a quality and a character set. -/
theorem json_zip_comesBack : ∃ media,
    made (.members .Application .Json .Zip)
      [.setQuality ⟨79, by decide⟩, .setParam (lit "charset") (lit "utf-8")] = .ok media ∧
    ComesBack media := by
  have settable : Settable (lit "charset", lit "utf-8") := by
    refine ⟨by decide, ?_, by decide, ?_⟩
    · intro c head
      obtain rfl : 99 = c := Option.some.inj head
      decide
    · intro c head
      obtain rfl : 117 = c := Option.some.inj head
      decide
  have built : made (.members .Application .Json .Zip)
      [.setQuality ⟨79, by decide⟩, .setParam (lit "charset") (lit "utf-8")] =
        .ok { new with
          top_ := .Application
          sub_ := .Json
          suffix_ := .Zip
          q_ := some 790
          params := [(lit "charset", lit "utf-8")] } := rfl
  refine ⟨_, built, printed_parsed built ?_⟩
  refine ⟨by simp, by simp, by simp, by simp, by simp, ?_⟩
  intro param hparam
  rw [List.mem_singleton.mp hparam]
  exact settable

/-- The media type that the constructor without arguments makes has no text of its own. -/
theorem empty_not_back : ∃ media, made .empty [] = .ok media ∧ ¬ ComesBack media := by
  refine ⟨new, rfl, ?_⟩
  intro back
  obtain ⟨media', parsed, -⟩ := back [] (List.Perm.refl _)
  have error : (fromString (toString new)).isOk = false := by decide
  have text : toString { new with params := [] } = toString new := rfl
  rw [text] at parsed
  rw [parsed] at error
  cases error

end MediaType

end Pistache.Http.Mime
