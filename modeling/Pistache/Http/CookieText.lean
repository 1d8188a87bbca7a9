import Pistache.Common.Ostream
import Pistache.Http.HeadLines

/-!
# Cookies as text

`Cookie::write`, and what the readers of cookies can make of a line: they split it at `=` and
`;`, so that the texts of the cookies they give keep clear of these (`Cookie.Readable`).

* `Cookie.fromRaw_readable`, `CookieJar.addFromRaw_readable` — what the readers make of a line.
-/

set_option autoImplicit false

namespace Pistache.Http

open Replay

/-- The text of an `int`. -/
def intText (n : Int) : Bytes := if n < 0 then 45 :: numeral 10 n.natAbs else numeral 10 n.natAbs

/-- `FullDate::write` and `FullDate::fromString`, which rest on the date library: a date is
written without a semicolon or a CR. -/
structure Dates where
  write : FullDate → Bytes
  fromString : Bytes → Except Exn FullDate
  write_plain : ∀ date, Cookie.semicolon ∉ write date ∧ CR ∉ write date

namespace Cookie

/-- The entries of `ext`, with `; ` between them. -/
def writeExt : List (Bytes × Bytes) → Bytes
  | [] => []
  | [e] => e.1 ++ lit "=" ++ e.2
  | e :: ext => e.1 ++ lit "=" ++ e.2 ++ lit "; " ++ writeExt ext

/-- `Cookie::write`. -/
def write (dates : Dates) (c : Cookie) : Bytes :=
  c.name ++ lit "=" ++ c.value
    ++ (c.path.elim [] fun val => lit "; " ++ (lit "Path=" ++ val))
    ++ (c.domain.elim [] fun val => lit "; " ++ (lit "Domain=" ++ val))
    ++ (c.maxAge.elim [] fun val => lit "; " ++ (lit "Max-Age=" ++ intText val.toInt))
    ++ (c.expires.elim [] fun val => lit "; " ++ (lit "Expires=" ++ dates.write val))
    ++ (if c.secure then lit "; Secure" else [])
    ++ (if c.httpOnly then lit "; HttpOnly" else [])
    ++ (if c.ext = [] then [] else lit "; " ++ writeExt c.ext)

/-- The reader takes the text for an attribute. -/
def IsAttribute (text : Bytes) : Prop := ∃ a ∈ attributes, (match_string a.1 text).isSome

instance (text : Bytes) : Decidable (IsAttribute text) := by unfold IsAttribute; infer_instance

/-- A text in front of a semicolon. -/
def Value (text : Bytes) : Prop := semicolon ∉ text ∧ OneLine text

instance (text : Bytes) : Decidable (Value text) := by unfold Value; infer_instance

/-- The name of an entry of `ext` that the reader may have found. -/
structure ExtName (text : Bytes) : Prop where
  equals : equals ∉ text
  blank : text.head? ≠ some SP ∧ text.head? ≠ some HT
  unknown : ¬IsAttribute text
  oneLine : OneLine text

/-- A cookie of which no text has a separator in it. -/
structure Readable (c : Cookie) : Prop where
  name_equals : equals ∉ c.name
  name_space : c.name.head? ≠ some SP
  name_oneLine : OneLine c.name
  value : Value c.value
  path : ∀ text, c.path = some text → Value text
  domain : ∀ text, c.domain = some text → Value text
  extName : ∀ e ∈ c.ext, ExtName e.1
  extValue : ∀ e ∈ c.ext, Value e.2

/-! ## What is read -/

theorem tokenToSemicolon_value {cursor : Bytes} (h : OneLine cursor) :
    Value (tokenToSemicolon cursor).1 ∧ (tokenToSemicolon cursor).2 <:+ cursor := by
  unfold tokenToSemicolon
  cases hm : match_until [semicolon] cursor with
  | none =>
    refine ⟨⟨fun hin => ?_, h⟩, List.nil_suffix⟩
    exact match_until_eq_none hm _ hin (by simp)
  | some p =>
    obtain ⟨tok, rest⟩ := p
    obtain ⟨rfl, -⟩ := match_until_some hm
    exact ⟨⟨fun hin => match_until_clean hm _ hin (by simp), h.left⟩, List.suffix_append tok rest⟩

theorem matchValue_value {cursor token rest : Bytes} (h : OneLine cursor)
    (hm : matchValue cursor = .ok (token, rest)) : Value token ∧ rest <:+ cursor := by
  unfold matchValue at hm
  split at hm
  · cases hm
  · split at hm
    · cases hm
    · simp only [Except.ok.injEq] at hm
      have hdrop := tokenToSemicolon_value (h.suffix (List.drop_suffix 1 cursor))
      rw [hm] at hdrop
      exact ⟨hdrop.1, hdrop.2.trans (List.drop_suffix 1 cursor)⟩

theorem matchAttributeValue_readable {fullDate : Bytes → Except Exn FullDate} {c c' : Cookie}
    {cursor rest : Bytes} {attr : Attribute} (h : OneLine cursor) (hc : c.Readable)
    (hm : matchAttributeValue fullDate c cursor attr = .ok (c', rest)) :
    c'.Readable ∧ rest <:+ cursor := by
  cases attr <;> simp only [matchAttributeValue, bind, Except.bind, pure, Except.pure] at hm
  case path =>
    split at hm
    · cases hm
    · rename_i v hv
      obtain ⟨token, rest'⟩ := v
      obtain ⟨htok, hrest⟩ := matchValue_value h hv
      cases hm
      exact ⟨{ hc with path := fun text ht => by cases ht; exact htok }, hrest⟩
  case domain =>
    split at hm
    · cases hm
    · rename_i v hv
      obtain ⟨token, rest'⟩ := v
      obtain ⟨htok, hrest⟩ := matchValue_value h hv
      cases hm
      exact ⟨{ hc with domain := fun text ht => by cases ht; exact htok }, hrest⟩
  case secure =>
    cases hm
    exact ⟨{ hc with }, List.suffix_refl _⟩
  case httpOnly =>
    cases hm
    exact ⟨{ hc with }, List.suffix_refl _⟩
  case maxAge =>
    split at hm
    · cases hm
    · rename_i v hv
      split at hm
      · cases hm
      · cases hm
        exact ⟨{ hc with }, (matchValue_value h hv).2⟩
  case expires =>
    split at hm
    · cases hm
    · rename_i v hv
      split at hm
      · cases hm
      · cases hm
        exact ⟨{ hc with }, (matchValue_value h hv).2⟩

theorem match_string_append {str text rest : Bytes} (h : match_string str text = some rest)
    (more : Bytes) : match_string str (text ++ more) = some (rest ++ more) := by
  unfold match_string at h ⊢
  split at h
  · cases h
  · rename_i hlen
    rw [if_neg (by rw [List.length_append]; omega), List.take_append_of_le_length (by omega),
      List.drop_append_of_le_length (by omega)]
    split at h
    · rename_i heq
      rw [if_pos heq]
      cases h
      rfl
    · cases h

theorem findSome_attributes_none {cursor : Bytes}
    (h : (attributes.findSome? fun a => (match_string a.1 cursor).map fun rest => (a.2, rest)) = none) :
    ¬IsAttribute cursor := by
  rintro ⟨a, ha, hsome⟩
  have := List.findSome?_eq_none_iff.mp h a ha
  rw [Option.map_eq_none_iff] at this
  rw [this] at hsome
  cases hsome

theorem IsAttribute.append {text : Bytes} (h : IsAttribute text) (more : Bytes) :
    IsAttribute (text ++ more) := by
  obtain ⟨a, ha, hsome⟩ := h
  obtain ⟨rest, hrest⟩ := Option.isSome_iff_exists.mp hsome
  exact ⟨a, ha, by rw [match_string_append hrest]; rfl⟩

theorem Readable.insertExt {c : Cookie} (h : c.Readable) {name value : Bytes} (hname : ExtName name)
    (hvalue : Value value) : ({ c with ext := insertNew name value c.ext } : Cookie).Readable where
  name_equals := h.name_equals
  name_space := h.name_space
  name_oneLine := h.name_oneLine
  value := h.value
  path := h.path
  domain := h.domain
  extName e he := by
    rcases insertNew_mem he with he | rfl
    · exact h.extName e he
    · exact hname
  extValue e he := by
    rcases insertNew_mem he with he | rfl
    · exact h.extValue e he
    · exact hvalue

theorem skip_whitespaces_head (cursor : Bytes) :
    (skip_whitespaces cursor).head? ≠ some SP ∧ (skip_whitespaces cursor).head? ≠ some HT := by
  have hnot := List.head?_dropWhile_not (fun c => decide (c = SP ∨ c = HT)) cursor
  unfold skip_whitespaces
  cases hd : (cursor.dropWhile fun c => decide (c = SP ∨ c = HT)).head? with
  | none => simp
  | some c =>
    rw [hd] at hnot
    simpa using hnot

theorem readAttribute_readable {fullDate : Bytes → Except Exn FullDate} {c c' : Cookie}
    {cursor rest : Bytes} (h : OneLine cursor)
    (hblank : cursor.head? ≠ some SP ∧ cursor.head? ≠ some HT) (hc : c.Readable)
    (hm : readAttribute fullDate c cursor = .ok (c', rest)) : c'.Readable ∧ rest <:+ cursor := by
  unfold readAttribute at hm
  split at hm
  · rename_i attr cur hfind
    have hsuf : cur <:+ cursor := (find_attribute_rest hfind).1
    simp only [bind, Except.bind, pure, Except.pure] at hm
    split at hm
    · cases hm
    · rename_i v hv
      obtain ⟨c₁, cur₁⟩ := v
      obtain ⟨hread, hrest⟩ := matchAttributeValue_readable (h.suffix hsuf) hc hv
      cases hm
      exact ⟨hread, ((List.drop_suffix 1 cur₁).trans hrest).trans hsuf⟩
  · rename_i hfind
    have hattr := findSome_attributes_none hfind
    split at hm
    · rename_i hm'
      cases hm
      refine ⟨hc.insertExt ⟨fun hin => ?_, hblank, hattr, h⟩ ⟨by simp, by decide⟩, List.nil_suffix⟩
      exact match_until_eq_none hm' _ hin (by simp)
    · rename_i name cur hm'
      obtain ⟨rfl, k, cur', hcur, hk⟩ := match_until_some hm'
      simp only [bind, Except.bind, pure, Except.pure] at hm
      split at hm
      · cases hm
      · rename_i v hv
        obtain ⟨value, cur₁⟩ := v
        obtain ⟨hvalue, hrest⟩ := matchValue_value h.right hv
        cases hm
        refine ⟨hc.insertExt ⟨fun hin => match_until_clean hm' _ hin (by simp), ?_,
          fun ha => hattr (ha.append cur), h.left⟩ hvalue, hrest.trans (List.suffix_append _ _)⟩
        cases name with
        | nil => simp
        | cons x name => simpa using hblank

/-- **What `fromRaw` makes of a line.** -/
theorem fromRaw_readable {fullDate : Bytes → Except Exn FullDate} {str : Bytes} {c : Cookie}
    (h : OneLine str) (hspace : str.head? ≠ some SP) (hm : fromRaw fullDate str = .ok c) :
    c.Readable := by
  unfold fromRaw at hm
  split at hm
  · cases hm
  · rename_i name cur hname
    obtain ⟨rfl, -⟩ := match_until_some hname
    have hrest : OneLine (cur.drop 1) := h.right.suffix (List.drop_suffix 1 cur)
    obtain ⟨hvalue, hsuf⟩ := tokenToSemicolon_value hrest
    have hnew : (Cookie.new name (tokenToSemicolon (cur.drop 1)).1).Readable :=
      { name_equals := fun hin => match_until_clean hname _ hin (by simp)
        name_space := by
          cases name with
          | nil => exact fun h => nomatch h
          | cons x name => exact hspace
        name_oneLine := h.left
        value := hvalue
        path := fun text ht => by cases ht
        domain := fun text ht => by cases ht
        extName := fun e he => by cases he
        extValue := fun e he => by cases he }
    dsimp only at hm
    split at hm
    · cases hm
      exact hnew
    · refine Loop.run_induction (fromRawBody_shrinks fullDate) (fun cookie _ => .ok cookie)
        (fun cookie cursor => cookie.Readable ∧ OneLine cursor)
        (fun result => ∀ cookie, result = .ok cookie → cookie.Readable) ?_ ?_ _ _
        ⟨hnew, (hrest.suffix hsuf).suffix (List.drop_suffix 1 _)⟩ c hm
      · rintro cookie xs r ⟨hc, hx⟩ hr c' rfl
        unfold fromRawBody at hr
        split at hr
        · cases hr
        · rename_i c₁ cur₁ ha
          split at hr
          · cases hr
            exact (readAttribute_readable (hx.suffix (List.dropWhile_suffix _))
              (skip_whitespaces_head xs) hc ha).1
          · cases hr
      · rintro cookie xs cookie' xs' ⟨hc, hx⟩ hr
        unfold fromRawBody at hr
        split at hr
        · cases hr
        · rename_i c₁ cur₁ ha
          split at hr
          · cases hr
          · cases hr
            obtain ⟨hread, hsuf'⟩ := readAttribute_readable (hx.suffix (List.dropWhile_suffix _))
              (skip_whitespaces_head xs) hc ha
            exact ⟨hread, (hx.suffix (List.dropWhile_suffix _)).suffix hsuf'⟩

end Cookie

/-- **What `addFromRaw` makes of a line.** -/
theorem CookieJar.addFromRaw_readable {jar : CookieJar} {str : Bytes} (h : OneLine str)
    (hspace : str.head? ≠ some SP)
    (hjar : ∀ e ∈ jar, e.1 = (e.2.name, e.2.value) ∧ e.2.Readable) :
    ∀ e ∈ (addFromRaw jar str).1, e.1 = (e.2.name, e.2.value) ∧ e.2.Readable := by
  refine Loop.run_induction addFromRawBody_shrinks (fun jar _ => (jar, none))
    (fun jar cursor => (∀ e ∈ jar, e.1 = (e.2.name, e.2.value) ∧ e.2.Readable) ∧
      OneLine cursor ∧ cursor.head? ≠ some SP)
    (fun result => ∀ e ∈ result.1, e.1 = (e.2.name, e.2.value) ∧ e.2.Readable) ?_ ?_ jar str
    ⟨hjar, h, hspace⟩
  · rintro jar xs r ⟨hjar, -, -⟩ hr
    unfold addFromRawBody at hr
    repeat' split at hr
    all_goals cases hr
    · exact hjar
    · exact hjar
  · rintro jar xs jar' xs' ⟨hjar, hx, hs⟩ hr
    unfold addFromRawBody at hr
    split at hr
    · cases hr
    · split at hr
      · cases hr
      · rename_i name cur hm
        cases hr
        obtain ⟨rfl, -⟩ := match_until_some hm
        have hrest : OneLine (cur.drop 1) := hx.right.suffix (List.drop_suffix 1 cur)
        obtain ⟨hvalue, hsuf⟩ := Cookie.tokenToSemicolon_value hrest
        refine ⟨fun e he => ?_, ?_, (Cookie.skip_whitespaces_head _).1⟩
        · rcases Replay.insertNew_mem he with he | rfl
          · exact hjar e he
          · refine ⟨rfl, ?_⟩
            exact
              { name_equals := fun hin => match_until_clean hm _ hin (by simp)
                name_space := by
                  cases name with
                  | nil => exact fun h => nomatch h
                  | cons x name => exact hs
                name_oneLine := hx.left
                value := hvalue
                path := fun text ht => by cases ht
                domain := fun text ht => by cases ht
                extName := fun e he => by cases he
                extValue := fun e he => by cases he }
        · exact ((hrest.suffix hsuf).suffix (List.drop_suffix 1 _)).suffix
            (List.dropWhile_suffix _)

/-! ## What the lines of a head leave in the jar -/

/-- A cookie stands under its name and value, and could have been read. -/
def CookieJar.Readable (jar : CookieJar) : Prop :=
  ∀ e ∈ jar, e.1 = (e.2.name, e.2.value) ∧ e.2.Readable

namespace HeadersStep

variable {H : Type} {registry : Registry H}

theorem cookies_readable {line : Bytes × Bytes} (hline : IsLine line) {jar : CookieJar}
    (hjar : jar.Readable) : (cookies registry line.1 line.2 jar).1.Readable := by
  unfold cookies
  split
  · exact CookieJar.addFromRaw_readable hline.oneLine hline.space fun e he => nomatch he
  · split
    · split
      · rename_i cookie hc
        intro e he
        rcases Replay.insertNew_mem he with he | rfl
        · exact hjar e he
        · exact ⟨rfl, Cookie.fromRaw_readable hline.oneLine hline.space hc⟩
      · exact hjar
    · exact hjar

theorem foldl_cookies_readable : ∀ {ls : List (Bytes × Bytes)} {jar : CookieJar},
    (∀ l ∈ ls, IsLine l) → jar.Readable →
      (ls.foldl (fun jar l => (cookies registry l.1 l.2 jar).1) jar).Readable
  | [], _, _, hjar => hjar
  | l :: ls, jar, hls, hjar => by
    rw [List.foldl_cons]
    exact foldl_cookies_readable (fun l' hl => hls l' (List.mem_cons_of_mem l hl))
      (cookies_readable (hls l List.mem_cons_self) hjar)

end HeadersStep

end Pistache.Http
