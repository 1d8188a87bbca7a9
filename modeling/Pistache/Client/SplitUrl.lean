import Pistache.Client.WriteRequest

/-!
# Taking a URL apart

`splitUrl` takes off the scheme, then `www`, then a dot, each where it is there.  Without its dot
`www` is no label and without a `www` the dot is none, but each is taken off all the same, so that
different authorities come to one host and to one pool of connections.

Principal results:

* `splitUrl_cut` — what is left of the authority when the scheme has been taken off.
* `Url.splits_iff` — the URLs that are taken apart as they are written.
-/

set_option autoImplicit false

namespace Pistache.Client

open Http
open RequestLineStep (questionMark)

/-- `www`, and the dot behind it. -/
def www : Bytes := lit "www"
def dot : UInt8 := 46

/-! ## URLs -/

/-- A URL by its parts: a scheme or none, an authority, and what follows it. -/
structure Url where
  scheme : Bytes
  authority : Bytes
  rest : Bytes
  scheme_ok : scheme = [] ∨ scheme.map tolower = lit "http://" ∨ scheme.map tolower = lit "https://"
  authority_ok : questionMark ∉ authority ∧ slash ∉ authority
  rest_ok : rest = [] ∨ rest.head? = some questionMark ∨ rest.head? = some slash

namespace Url

def text (u : Url) : Bytes := u.scheme ++ (u.authority ++ u.rest)

/-- The authority without one leading `www.` label. -/
def bare (u : Url) : Bytes :=
  if (u.authority.take 4).map tolower = www ++ [dot] then u.authority.drop 4 else u.authority

/-- The host of the URL. -/
def host (u : Url) (remove_subdomain : Bool) : Bytes :=
  if remove_subdomain then u.bare else u.authority

/-- **The URL is taken apart as it is written**: the page is what follows the authority, the host
is the authority without the label, and it is the host of no URL of another host. -/
structure Splits (u : Url) (remove_subdomain : Bool) : Prop where
  page : (splitUrl u.text remove_subdomain).2.1 = u.rest
  host : (splitUrl u.text remove_subdomain).1 = u.host remove_subdomain
  apart : ∀ v : Url, (splitUrl v.text remove_subdomain).1 = v.host remove_subdomain →
    (splitUrl v.text remove_subdomain).1 = (splitUrl u.text remove_subdomain).1 →
      v.host remove_subdomain = u.host remove_subdomain

/-- The URL has a scheme, or its text does not begin with one. -/
def Told (u : Url) : Prop :=
  u.scheme ≠ [] ∨
    match_string (lit "http://") u.text = none ∧ match_string (lit "https://") u.text = none

/-- The authority begins with no dot, and with `www` only as a label. -/
def Labelled (u : Url) : Prop :=
  u.authority.head? ≠ some dot ∧
    ((u.authority.take 3).map tolower = www → (u.authority.drop 3).head? = some dot)

end Url

/-! ## The steps of the cursor -/

/-- The cursor behind the scheme, and whether it is `https`. -/
def cutScheme (url : Bytes) : Bytes × Bool :=
  match match_string (lit "http://") url with
  | some cursor => (cursor, false)
  | none =>
    match match_string (lit "https://") url with
    | some cursor => (cursor, true)
    | none => (url, false)

/-- `match_string("www", cursor)` and `match_literal('.', cursor)`. -/
def cutLabel (cursor : Bytes) : Bytes :=
  let cursor := (match_string www cursor).getD cursor
  if cursor.head? = some dot then cursor.drop 1 else cursor

/-- The text up to the first `?` or `/`, and the rest. -/
def cutPage (cursor : Bytes) : Bytes × Bytes :=
  (match_until [questionMark, slash] cursor).getD (cursor, [])

theorem splitUrl_cut (url : Bytes) (remove_subdomain : Bool) :
    splitUrl url remove_subdomain =
      ((cutPage (if remove_subdomain then cutLabel (cutScheme url).1 else (cutScheme url).1)).1,
        (cutPage (if remove_subdomain then cutLabel (cutScheme url).1 else (cutScheme url).1)).2,
        (cutScheme url).2) := by
  unfold splitUrl cutScheme
  cases match_string (lit "http://") url with
  | some cursor => rfl
  | none =>
    cases match_string (lit "https://") url with
    | some cursor => rfl
    | none => rfl

theorem cutPage_append (cursor : Bytes) : (cutPage cursor).1 ++ (cutPage cursor).2 = cursor := by
  unfold cutPage
  cases h : match_until [questionMark, slash] cursor with
  | none => simp
  | some p =>
    obtain ⟨hcursor, -⟩ := match_until_some h
    exact hcursor.symm

/-! ## The label -/

/-- Taking the label off stops in front of what follows the authority. -/
theorem cutLabel_append {authority rest : Bytes}
    (hrest : rest = [] ∨ rest.head? = some questionMark ∨ rest.head? = some slash) :
    cutLabel (authority ++ rest) = cutLabel authority ++ rest := by
  have hhead : rest.head? ≠ some dot ∧ ∀ c, rest.head? = some c → tolower c ≠ 119 := by
    rcases hrest with rfl | h | h
    · exact ⟨by simp, by simp⟩
    · rw [h]
      refine ⟨by decide, ?_⟩
      rintro c hc
      rw [← Option.some.inj hc]
      decide
    · rw [h]
      refine ⟨by decide, ?_⟩
      rintro c hc
      rw [← Option.some.inj hc]
      decide
  have hdot : ∀ text : Bytes,
      (if (text ++ rest).head? = some dot then (text ++ rest).drop 1 else text ++ rest) =
        (if text.head? = some dot then text.drop 1 else text) ++ rest := by
    intro text
    cases text with
    | nil => rw [List.nil_append, if_neg hhead.1, List.head?_nil, if_neg (by simp), List.nil_append]
    | cons c text =>
      rw [List.cons_append, List.head?_cons, List.head?_cons]
      split <;> simp
  have hlow : www.map tolower = [119, 119, 119] := by decide
  have hlen : www.length = 3 := by decide
  -- a short authority leaves the `?` or the `/` in the place of a letter
  have hshort : authority.length < 3 → match_string www (authority ++ rest) = none := by
    intro hlt
    unfold match_string
    rw [hlow, hlen]
    split
    · rfl
    · refine if_neg fun heq => ?_
      have hchar := congrArg (fun l : Bytes => l[authority.length]?) heq
      have hleft : ([119, 119, 119] : Bytes)[authority.length]? = some 119 := by
        rcases (by omega : authority.length = 0 ∨ authority.length = 1 ∨ authority.length = 2) with
          h | h | h <;> rw [h] <;> rfl
      simp only [hleft, List.getElem?_map, List.getElem?_take, if_pos hlt,
        List.getElem?_append_right (Nat.le_refl _), Nat.sub_self, ← List.head?_eq_getElem?] at hchar
      obtain ⟨c, hc, h119⟩ := Option.map_eq_some_iff.mp hchar.symm
      exact hhead.2 c hc h119
  have hwww : match_string www (authority ++ rest) =
      (match_string www authority).map (· ++ rest) := by
    by_cases hlt : authority.length < 3
    · rw [hshort hlt, match_string, hlen, if_pos hlt]
      rfl
    · have hle : 3 ≤ authority.length := by omega
      unfold match_string
      rw [hlen, if_neg hlt, if_neg (by rw [List.length_append]; omega),
        List.take_append_of_le_length hle, List.drop_append_of_le_length hle]
      split <;> rfl
  unfold cutLabel
  rw [hwww]
  cases match_string www authority with
  | none => exact hdot authority
  | some text => exact hdot text

/-- The cursor behind a label, if it has one. -/
theorem cutLabel_cases (authority : Bytes) :
    ((authority.take 3).map tolower = www ∧ (authority.drop 3).head? = some dot ∧
      cutLabel authority = authority.drop 4) ∨
    ((authority.take 3).map tolower = www ∧ (authority.drop 3).head? ≠ some dot ∧
      cutLabel authority = authority.drop 3) ∨
    ((authority.take 3).map tolower ≠ www ∧ authority.head? = some dot ∧
      cutLabel authority = authority.drop 1) ∨
    ((authority.take 3).map tolower ≠ www ∧ authority.head? ≠ some dot ∧
      cutLabel authority = authority) := by
  have hlow : www.map tolower = www := by decide
  have hlen : www.length = 3 := by decide
  unfold cutLabel match_string
  rw [hlow, hlen]
  by_cases hwww : (authority.take 3).map tolower = www
  · have hthree : ¬authority.length < 3 := by
      have hcount := congrArg List.length hwww
      rw [List.length_map, List.length_take, hlen] at hcount
      omega
    rw [if_neg hthree, if_pos hwww.symm, Option.getD_some]
    by_cases hdot : (authority.drop 3).head? = some dot
    · exact .inl ⟨hwww, hdot, by rw [if_pos hdot, List.drop_drop]⟩
    · exact .inr (.inl ⟨hwww, hdot, if_neg hdot⟩)
  · have hcmp : ¬www = (authority.take 3).map tolower := fun h => hwww h.symm
    rw [if_neg hcmp, ite_self, Option.getD_none]
    by_cases hdot : authority.head? = some dot
    · exact .inr (.inr (.inl ⟨hwww, hdot, if_pos hdot⟩))
    · exact .inr (.inr (.inr ⟨hwww, hdot, if_neg hdot⟩))

theorem cutLabel_suffix (authority : Bytes) : cutLabel authority <:+ authority := by
  rcases cutLabel_cases authority with ⟨-, -, h⟩ | ⟨-, -, h⟩ | ⟨-, -, h⟩ | ⟨-, -, h⟩
  · exact h ▸ List.drop_suffix 4 authority
  · exact h ▸ List.drop_suffix 3 authority
  · exact h ▸ List.drop_suffix 1 authority
  · rw [h]

namespace Url

/-- **When the label is taken off and nothing else.** -/
theorem cutLabel_eq_iff (u : Url) : cutLabel u.authority = u.bare ↔ u.Labelled := by
  have hlabel : (u.authority.take 4).map tolower = www ++ [dot] ↔
      (u.authority.take 3).map tolower = www ∧ (u.authority.drop 3).head? = some dot := by
    rcases hu : u.authority with _ | ⟨a, _ | ⟨b, _ | ⟨c, _ | ⟨d, t⟩⟩⟩⟩
    · decide
    · simp [www, lit]
    · simp [www, lit]
    · simp [www, lit]
    · have hd : tolower d = dot ↔ d = dot := by
        constructor
        · intro h
          exact tolower_eq (by decide) h
        · rintro rfl
          decide
      have hthree : www ++ [dot] = [119, 119, 119, dot] := by decide
      have hwww : www = [119, 119, 119] := by decide
      rw [hthree, hwww]
      simp [hd, and_assoc]
  have hlength : ∀ n, 0 < n → n ≤ u.authority.length → u.authority.drop n ≠ u.authority := by
    intro n hpos hle heq
    have hcount := congrArg List.length heq
    rw [List.length_drop] at hcount
    omega
  unfold bare Labelled
  simp only [hlabel]
  rcases cutLabel_cases u.authority with ⟨hwww, hdot, h⟩ | ⟨hwww, hdot, h⟩ | ⟨hwww, hdot, h⟩ |
    ⟨hwww, hdot, h⟩
  · rw [if_pos ⟨hwww, hdot⟩, h]
    refine iff_of_true rfl ⟨fun hhead => ?_, fun _ => hdot⟩
    obtain ⟨a, t, ht⟩ : ∃ a t, u.authority = a :: t := by
      cases ha : u.authority with
      | nil => rw [ha] at hhead; cases hhead
      | cons a t => exact ⟨a, t, rfl⟩
    rw [ht, List.head?_cons, Option.some.injEq] at hhead
    subst hhead
    rw [ht, List.take_succ_cons, List.map_cons] at hwww
    have hchar : tolower dot = 119 := (List.cons.inj hwww).1
    exact absurd hchar (by decide)
  · rw [if_neg (fun hboth => hdot hboth.2), h]
    have hcount := congrArg List.length hwww
    have hthree : www.length = 3 := by decide
    rw [List.length_map, List.length_take, hthree] at hcount
    refine iff_of_false (hlength 3 (by omega) (by omega)) fun hplain => hdot (hplain.2 hwww)
  · rw [if_neg (fun hboth => hwww hboth.1), h]
    have hpos : 1 ≤ u.authority.length := by
      cases ha : u.authority with
      | nil => rw [ha] at hdot; cases hdot
      | cons a t => simp
    exact iff_of_false (hlength 1 (by omega) hpos) fun hplain => hplain.1 hdot
  · rw [if_neg (fun hboth => hwww hboth.1), h]
    exact iff_of_true rfl ⟨hdot, fun hw => absurd hw hwww⟩

/-! ## The scheme -/

/-- Behind the scheme the cursor is in front of the authority. -/
theorem cutScheme_text {u : Url} (h : u.Told) : (cutScheme u.text).1 = u.authority ++ u.rest := by
  have hsplit : ∀ {https : Bool}, splitUrl u.text false = (u.authority, u.rest, https) →
      (cutScheme u.text).1 = u.authority ++ u.rest := by
    intro https heq
    have happend := cutPage_append (cutScheme u.text).1
    rw [splitUrl_cut] at heq
    simp only [Bool.false_eq_true, if_false, Prod.mk.injEq] at heq
    rw [← happend, heq.1, heq.2.1]
  rcases u.scheme_ok with hnone | hhttp | hhttps
  · rcases h with hne | ⟨hno, hnos⟩
    · exact absurd hnone hne
    · have htext : u.text = u.authority ++ u.rest := by
        rw [text, hnone, List.nil_append]
      rw [htext] at hno hnos
      exact hsplit (htext ▸ splitUrl_bare hno hnos u.authority_ok u.rest_ok)
  · have hscheme : u.scheme.map tolower = if false then lit "https://" else lit "http://" := hhttp
    exact hsplit (splitUrl_scheme hscheme u.authority_ok u.rest_ok)
  · have hscheme : u.scheme.map tolower = if true then lit "https://" else lit "http://" := hhttps
    exact hsplit (splitUrl_scheme hscheme u.authority_ok u.rest_ok)

/-- A text that begins with a scheme has its page behind it, whatever the authority was meant
to be. -/
theorem page_ne {u : Url} (h : ¬u.Told) (remove_subdomain : Bool) :
    (splitUrl u.text remove_subdomain).2.1 ≠ u.rest := by
  have hnone : u.scheme = [] := Classical.byContradiction fun hne => h (.inl hne)
  have htext : u.text = u.authority ++ u.rest := by rw [text, hnone, List.nil_append]
  -- the slashes of the scheme do not stand in the authority, so it ends before they do
  have hshort : ∃ taken, u.text = taken ++ (cutScheme u.text).1 ∧
      u.authority.length < taken.length := by
    have hslash : ∀ {str taken rest : Bytes}, slash ∈ str.map tolower →
        u.text = taken ++ rest → taken.map tolower = str.map tolower →
          u.authority.length < taken.length := by
      intro str taken rest hin happend hlow
      refine Nat.lt_of_not_le fun hle => ?_
      have htaken : taken <+: u.text := happend ▸ List.prefix_append taken rest
      have hauthority : u.authority <+: u.text := htext ▸ List.prefix_append u.authority u.rest
      have hpre := List.prefix_of_prefix_length_le htaken hauthority hle
      rw [← hlow] at hin
      obtain ⟨c, hc, heq⟩ := List.mem_map.mp hin
      have hcs : c = slash := tolower_eq (by decide) heq
      exact u.authority_ok.2 (hpre.subset (hcs ▸ hc))
    unfold cutScheme
    cases hhttp : match_string (lit "http://") u.text with
    | some cursor =>
      obtain ⟨taken, happend, hlow⟩ := match_string_iff.mp hhttp
      exact ⟨taken, happend, hslash (by decide) happend hlow⟩
    | none =>
      cases hhttps : match_string (lit "https://") u.text with
      | some cursor =>
        obtain ⟨taken, happend, hlow⟩ := match_string_iff.mp hhttps
        exact ⟨taken, happend, hslash (by decide) happend hlow⟩
      | none => exact absurd (.inr ⟨hhttp, hhttps⟩) h
  obtain ⟨taken, happend, hlt⟩ := hshort
  intro heq
  have hpage := cutPage_append
    (if remove_subdomain then cutLabel (cutScheme u.text).1 else (cutScheme u.text).1)
  rw [splitUrl_cut] at heq
  dsimp only at heq
  have hlen₁ := congrArg List.length hpage
  have hlen₂ := congrArg List.length (htext.symm.trans happend)
  rw [heq, List.length_append] at hlen₁
  rw [List.length_append, List.length_append] at hlen₂
  have hcut : (if remove_subdomain then cutLabel (cutScheme u.text).1
      else (cutScheme u.text).1).length ≤ (cutScheme u.text).1.length := by
    split
    · exact (cutLabel_suffix _).length_le
    · exact Nat.le_refl _
  omega

/-! ## The whole URL -/

/-- Host and page of a URL whose scheme is told. -/
theorem splitUrl_told {u : Url} (h : u.Told) (remove_subdomain : Bool) :
    (splitUrl u.text remove_subdomain).1 =
        (if remove_subdomain then cutLabel u.authority else u.authority) ∧
      (splitUrl u.text remove_subdomain).2.1 = u.rest := by
  have hcut : (if remove_subdomain then cutLabel (cutScheme u.text).1 else (cutScheme u.text).1) =
      (if remove_subdomain then cutLabel u.authority else u.authority) ++ u.rest := by
    rw [cutScheme_text h]
    cases remove_subdomain with
    | true => exact cutLabel_append u.rest_ok
    | false => rfl
  have hplain : questionMark ∉ (if remove_subdomain then cutLabel u.authority else u.authority) ∧
      slash ∉ (if remove_subdomain then cutLabel u.authority else u.authority) := by
    cases remove_subdomain with
    | true =>
      have hsub := (cutLabel_suffix u.authority).subset
      exact ⟨fun hin => u.authority_ok.1 (hsub hin), fun hin => u.authority_ok.2 (hsub hin)⟩
    | false => exact u.authority_ok
  have hpage := match_host hplain u.rest_ok
  rw [splitUrl_cut, hcut]
  unfold cutPage
  rw [hpage]
  exact ⟨rfl, rfl⟩

/-- **The URLs that are taken apart as they are written**: those whose scheme is told, and, where
the label is to go, whose authority begins with no dot and with `www` only as a label. -/
theorem splits_iff (u : Url) (remove_subdomain : Bool) :
    u.Splits remove_subdomain ↔ u.Told ∧ (remove_subdomain = true → u.Labelled) := by
  constructor
  · intro h
    have htold : u.Told := Classical.byContradiction fun hno => page_ne hno remove_subdomain h.page
    refine ⟨htold, ?_⟩
    rintro rfl
    have hhost := (splitUrl_told htold true).1
    rw [if_pos rfl] at hhost
    rw [← cutLabel_eq_iff, ← hhost]
    exact h.host
  · rintro ⟨htold, hlabelled⟩
    obtain ⟨hhost, hpage⟩ := splitUrl_told htold remove_subdomain
    have hown : (splitUrl u.text remove_subdomain).1 = u.host remove_subdomain := by
      rw [hhost, host]
      cases remove_subdomain with
      | true => exact (cutLabel_eq_iff u).mpr (hlabelled rfl)
      | false => rfl
    refine ⟨hpage, hown, fun v hv heq => ?_⟩
    rw [← hv, ← hown, heq]

/-- The authority `wwwx.com`: its host is that of `x.com`. -/
def wwwx : Url where
  scheme := lit "http://"
  authority := lit "wwwx.com"
  rest := lit "/"
  scheme_ok := .inr (.inl (by decide))
  authority_ok := by decide
  rest_ok := .inr (.inr (by decide))

theorem wwwx_not_splits :
    (splitUrl wwwx.text true).1 = (splitUrl (lit "http://x.com/") true).1 ∧ ¬wwwx.Splits true := by
  refine ⟨by decide, fun h => ?_⟩
  have hhost := h.host
  exact absurd hhost (by decide)

end Url

end Pistache.Client
