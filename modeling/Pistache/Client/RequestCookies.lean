import Pistache.Client.WriteRequest

/-!
# The line of cookies read back

`writeCookies` writes the names and the values of all cookies into one line; `addFromRaw` takes
the line apart again.  Blanks in front of a name are skipped.

Principal results:

* `cookies_iff` — when the cookies come back.
* `cookieHeader_trip` — when their names and values do.
-/

set_option autoImplicit false

namespace Pistache.Client

open Http Replay

/-! ## The text -/

theorem cookiePair_oneLine (cookie : Cookie) :
    OneLine (cookiePair cookie) ↔ OneLine cookie.name ∧ OneLine cookie.value :=
  oneLine_append_cons (by decide) (by decide)

theorem cookieText_oneLine : ∀ (cookies : List Cookie),
    OneLine (cookieText cookies) ↔ ∀ c ∈ cookies, OneLine c.name ∧ OneLine c.value
  | [] => ⟨fun _ => by simp, fun _ => by decide⟩
  | [c] => by
    rw [cookieText, cookiePair_oneLine]
    simp
  | c :: d :: cookies => by
    have hspace : OneLine (SP :: cookieText (d :: cookies)) ↔ OneLine (cookieText (d :: cookies)) :=
      (oneLine_append_cons (a := []) (by decide) (by decide)).trans
        ⟨fun h => h.2, fun h => ⟨by decide, h⟩⟩
    rw [cookieText_cons, oneLine_append_cons (by decide) (by decide), cookiePair_oneLine, hspace,
      cookieText_oneLine (d :: cookies), List.forall_mem_cons (a := c)]

/-- A text of cookies in front of which blanks are skipped. -/
theorem cookieText_dropWhile (p : UInt8 → Bool) (hequals : p Cookie.equals = false) (c : Cookie)
    (cookies : List Cookie) : (cookieText (c :: cookies)).dropWhile p =
      cookieText ({ c with name := c.name.dropWhile p } :: cookies) := by
  have hdrop : ∀ back : Bytes, (c.name ++ Cookie.equals :: back).dropWhile p =
      c.name.dropWhile p ++ Cookie.equals :: back := by
    intro back
    rw [List.dropWhile_append]
    split
    · rename_i hall
      rw [List.isEmpty_iff.mp hall, List.dropWhile_cons, hequals]
      rfl
    · rfl
  cases cookies with
  | nil => exact hdrop c.value
  | cons d cookies =>
    have := hdrop (c.value ++ Cookie.semicolon :: SP :: cookieText (d :: cookies))
    simpa [cookieText, cookiePair] using this

/-! ## The reader -/

/-- What is read of a cookie behind another one. -/
def skipBlanks (c : Cookie) : Cookie := Cookie.new (skip_whitespaces c.name) c.value

theorem addFromRawBody_pair {c : Cookie} (hname : Cookie.equals ∉ c.name)
    (hvalue : Cookie.semicolon ∉ c.value) {tail : Bytes} (ht : Cookie.Behind tail) (jar : CookieJar) :
    CookieJar.addFromRawBody jar (cookiePair c ++ tail) =
      .inr (jar.add (Cookie.new c.name c.value), skip_whitespaces (tail.drop 1)) := by
  have htok : ∀ x ∈ c.name, x ∉ [Cookie.equals] := fun x hx hin => by
    rw [List.mem_singleton] at hin
    exact hname (hin ▸ hx)
  have htext : cookiePair c ++ tail = c.name ++ Cookie.equals :: (c.value ++ tail) := by
    simp [cookiePair]
  have hne : c.name ++ Cookie.equals :: (c.value ++ tail) ≠ [] := by simp
  rw [htext]
  simp only [CookieJar.addFromRawBody, if_neg hne, match_until_token (List.mem_singleton_self _) htok,
    List.drop_succ_cons, List.drop_zero, Cookie.tokenToSemicolon_behind hvalue ht]

/-- **The reader goes through all cookies.** -/
theorem addFromRaw_text : ∀ (cookies : List Cookie) (c : Cookie) (jar : CookieJar),
    (∀ d ∈ c :: cookies, Cookie.equals ∉ d.name ∧ Cookie.semicolon ∉ d.value) →
      jar.addFromRaw (cookieText (c :: cookies)) =
        (applyAll (fun d j => CookieJar.add j d)
          (Cookie.new c.name c.value :: cookies.map skipBlanks) jar, none)
  | [], c, jar, h => by
    obtain ⟨hname, hvalue⟩ := h c List.mem_cons_self
    have hbody := addFromRawBody_pair hname hvalue (.inl rfl) jar
    rw [List.append_nil] at hbody
    rw [cookieText, CookieJar.addFromRaw, Loop.run_eq CookieJar.addFromRawBody_shrinks, hbody]
    rfl
  | d :: cookies, c, jar, h => by
    obtain ⟨hname, hvalue⟩ := h c List.mem_cons_self
    have hbody := addFromRawBody_pair hname hvalue (.inr ⟨SP :: cookieText (d :: cookies), rfl⟩) jar
    have hskip : skip_whitespaces (SP :: cookieText (d :: cookies)) =
        cookieText ({ d with name := skip_whitespaces d.name } :: cookies) := by
      have hdrop := cookieText_dropWhile (fun c => decide (c = SP ∨ c = HT)) (by decide) d cookies
      exact hdrop
    have ih := addFromRaw_text cookies { d with name := skip_whitespaces d.name }
      (jar.add (Cookie.new c.name c.value)) (fun x hx => by
        rcases List.mem_cons.mp hx with rfl | hx
        · obtain ⟨h₁, h₂⟩ := h d (by simp)
          exact ⟨fun hin => h₁ ((List.dropWhile_sublist _).mem hin), h₂⟩
        · exact h x (by simp [hx]))
    rw [List.drop_succ_cons, List.drop_zero, hskip] at hbody
    rw [cookieText_cons, CookieJar.addFromRaw, Loop.run_eq CookieJar.addFromRawBody_shrinks, hbody]
    exact ih

theorem applyAll_add (cookies : List Cookie) (jar : CookieJar) :
    applyAll (fun d j => CookieJar.add j d) cookies jar =
      applyAll (fun e l => insertNew e.1 e.2 l) (cookies.map fun c => ((c.name, c.value), c)) jar := by
  induction cookies generalizing jar with
  | nil => rfl
  | cons c cookies ih =>
    rw [applyAll_cons, ih]
    rfl

/-! ## Cookies that come back -/

/-- The cookies of a client that come back: they have a name and a value alone. -/
structure CookiesSurvive (cookies : List Cookie) : Prop where
  plain : ∀ c ∈ cookies, c = Cookie.new c.name c.value
  names : ∀ c ∈ cookies, Cookie.equals ∉ c.name ∧ OneLine c.name ∧ c.name.head? ≠ some SP
  values : ∀ c ∈ cookies, Cookie.Value c.value
  tabs : ∀ c ∈ cookies.tail, c.name.head? ≠ some HT

/-- What the parser hands to `addFromRaw`. -/
def cookieRead (jar : CookieJar) : CookieJar × Option Exn :=
  CookieJar.addFromRaw [] ((cookieText (jar.map Prod.snd)).dropWhile (· = SP))

/-- All cookies of a jar could have been read. -/
theorem readable_of_same {jar : CookieJar} (hnodup : (jar.map Prod.fst).Nodup)
    (hline : OneLine (cookieText (jar.map Prod.snd))) (hsame : SameTable (cookieRead jar).1 jar) :
    ∀ e ∈ jar, e.2.Readable ∧ e ∈ (cookieRead jar).1 := by
  intro e he
  have hspace : ((cookieText (jar.map Prod.snd)).dropWhile (· = SP)).head? ≠ some SP := by
    have hnot := List.head?_dropWhile_not (fun c => decide (c = SP)) (cookieText (jar.map Prod.snd))
    intro heq
    rw [heq] at hnot
    simp at hnot
  have hreadable := CookieJar.addFromRaw_readable
    (hline.suffix (List.dropWhile_suffix _)) hspace
    fun e (he : e ∈ ([] : CookieJar)) => nomatch he
  have hlookup := hsame e.1
  rw [lookup_of_mem hnodup (v := e.2) he] at hlookup
  obtain ⟨front, back, hsplit, -⟩ := List.lookup_eq_some_iff.mp hlookup
  have hmem : e ∈ (cookieRead jar).1 := by
    rw [hsplit]
    simp
  exact ⟨(hreadable e hmem).2, hmem⟩

/-- **The cookies come back** if and only if each of them has a name and a value only, and these
keep clear of the separators. -/
theorem cookies_iff {jar : CookieJar} (hnamed : ∀ e ∈ jar, e.1 = (e.2.name, e.2.value))
    (hnodup : (jar.map Prod.fst).Nodup) :
    (OneLine (cookieText (jar.map Prod.snd)) ∧ (cookieRead jar).2 = none ∧
      SameTable (cookieRead jar).1 jar) ↔ CookiesSurvive (jar.map Prod.snd) := by
  cases jar with
  | nil =>
    have hread : cookieRead [] = ([], none) := rfl
    rw [hread]
    refine ⟨fun _ => ?_, fun _ => ⟨by decide, rfl, fun key => rfl⟩⟩
    exact ⟨by simp, by simp, by simp, by simp⟩
  | cons e jar =>
    have hread : (∀ d ∈ (e :: jar).map Prod.snd, Cookie.equals ∉ d.name ∧ Cookie.semicolon ∉ d.value) →
        cookieRead (e :: jar) = (applyAll (fun d j => CookieJar.add j d)
          (Cookie.new (e.2.name.dropWhile (· = SP)) e.2.value :: (jar.map Prod.snd).map skipBlanks) [],
            none) := by
      intro h
      rw [cookieRead, List.map_cons, cookieText_dropWhile _ (by decide)]
      refine addFromRaw_text _ _ _ fun d hd => ?_
      rcases List.mem_cons.mp hd with rfl | hd
      · obtain ⟨h₁, h₂⟩ := h e.2 (by simp)
        exact ⟨fun hin => h₁ ((List.dropWhile_sublist _).mem hin), h₂⟩
      · exact h d (by simp [hd])
    constructor
    · rintro ⟨hline, -, hsame⟩
      have hback := readable_of_same hnodup hline hsame
      have hplain : ∀ d ∈ (e :: jar).map Prod.snd,
          Cookie.equals ∉ d.name ∧ Cookie.semicolon ∉ d.value := by
        intro d hd
        obtain ⟨x, hx, rfl⟩ := List.mem_map.mp hd
        exact ⟨(hback x hx).1.name_equals, (hback x hx).1.value.1⟩
      have hfirst : e.2.name.dropWhile (· = SP) = e.2.name :=
        Header.dropWhile_space.mpr (hback e List.mem_cons_self).1.name_space
      -- a cookie of the jar is the first one, or the reader has skipped the blanks of one
      have hcases : ∀ x ∈ e :: jar, x.2 = Cookie.new e.2.name e.2.value ∨
          ∃ d, x.2 = skipBlanks d := by
        intro x hx
        have hmem := (hback x hx).2
        rw [hread hplain, applyAll_add, hfirst] at hmem
        rcases mem_applyAll_insertNew hmem with hmem | hmem
        · exact nomatch hmem
        · obtain ⟨c, hc, rfl⟩ := List.mem_map.mp hmem
          rcases List.mem_cons.mp hc with rfl | hc
          · exact .inl rfl
          · obtain ⟨d, -, rfl⟩ := List.mem_map.mp hc
            exact .inr ⟨d, rfl⟩
      refine
        { plain := fun c hc => ?_
          names := fun c hc => ?_
          values := fun c hc => ?_
          tabs := fun c hc => ?_ }
      · obtain ⟨x, hx, rfl⟩ := List.mem_map.mp hc
        rcases hcases x hx with h | ⟨d, h⟩
        · rw [h]
          rfl
        · rw [h]
          rfl
      · obtain ⟨x, hx, rfl⟩ := List.mem_map.mp hc
        have hx := (hback x hx).1
        exact ⟨hx.name_equals, hx.name_oneLine, hx.name_space⟩
      · obtain ⟨x, hx, rfl⟩ := List.mem_map.mp hc
        exact (hback x hx).1.value
      · rw [List.map_cons, List.tail_cons] at hc
        obtain ⟨x, hx, rfl⟩ := List.mem_map.mp hc
        rcases hcases x (List.mem_cons_of_mem e hx) with h | ⟨d, h⟩
        · -- it would be the first one once more
          exfalso
          have hkey : x.1 = e.1 := by
            rw [hnamed x (List.mem_cons_of_mem e hx), hnamed e List.mem_cons_self, h]
            rfl
          rw [List.map_cons, List.nodup_cons] at hnodup
          exact hnodup.1 (List.mem_map.mpr ⟨x, hx, hkey⟩)
        · rw [h]
          exact (Cookie.skip_whitespaces_head d.name).2
    · intro h
      have hplain : ∀ d ∈ (e :: jar).map Prod.snd,
          Cookie.equals ∉ d.name ∧ Cookie.semicolon ∉ d.value :=
        fun d hd => ⟨(h.names d hd).1, (h.values d hd).1⟩
      have hfirst : e.2.name.dropWhile (· = SP) = e.2.name :=
        Header.dropWhile_space.mpr (h.names e.2 (by simp)).2.2
      have hskip : (jar.map Prod.snd).map skipBlanks = jar.map Prod.snd := by
        calc (jar.map Prod.snd).map skipBlanks
            = (jar.map Prod.snd).map id := List.map_congr_left fun d hd => by
              have hd' : d ∈ (e :: jar).map Prod.snd := by
                rw [List.map_cons]
                exact List.mem_cons_of_mem _ hd
              have hhead : skip_whitespaces d.name = d.name := by
                have hsp := (h.names d hd').2.2
                have hht := h.tabs d (by simpa using hd)
                cases hname : d.name with
                | nil => rfl
                | cons x name =>
                  rw [hname] at hsp hht
                  simp only [List.head?_cons, ne_eq, Option.some.injEq] at hsp hht
                  simp [skip_whitespaces, hsp, hht]
              rw [skipBlanks, hhead]
              exact (h.plain d hd').symm
          _ = jar.map Prod.snd := List.map_id _
      have hentries : ((e :: jar).map Prod.snd).map (fun c => ((c.name, c.value), c)) = e :: jar := by
        rw [List.map_map]
        refine (List.map_congr_left fun x hx => ?_).trans (List.map_id (e :: jar))
        exact Prod.ext (hnamed x hx).symm rfl
      have hnew : Cookie.new (e.2.name.dropWhile (· = SP)) e.2.value = e.2 := by
        rw [hfirst]
        exact (h.plain e.2 (by simp)).symm
      rw [hread hplain, hskip, hnew]
      refine ⟨(cookieText_oneLine _).mpr fun c hc => ⟨(h.names c hc).2.1, (h.values c hc).2⟩, rfl, ?_⟩
      intro key
      have hlist : e.2 :: jar.map Prod.snd = (e :: jar).map Prod.snd := rfl
      rw [hlist, applyAll_add, hentries, lookup_applyAll_insertNew]
      rfl

/-! ## The names and the values -/

/-- The names and the values of a jar. -/
def pairs (jar : CookieJar) : List (Bytes × Bytes) := jar.map fun e => (e.2.name, e.2.value)

/-- A jar into which the cookies have been put, in whatever order it gives them back. -/
def Holds (cookies : List Cookie) (jar : CookieJar) : Prop :=
  jar.Perm (applyAll (fun c j => CookieJar.add j c) cookies [])

/-- The names have no `=`, no `;` and no space in them, the values no `;`. -/
structure Plain (jar : CookieJar) : Prop where
  names : ∀ pair ∈ pairs jar,
    Cookie.equals ∉ pair.1 ∧ Cookie.semicolon ∉ pair.1 ∧ SP ∉ pair.1
  values : ∀ pair ∈ pairs jar, Cookie.semicolon ∉ pair.2

instance (jar : CookieJar) : Decidable (Plain jar) :=
  decidable_of_iff ((∀ pair ∈ pairs jar,
      Cookie.equals ∉ pair.1 ∧ Cookie.semicolon ∉ pair.1 ∧ SP ∉ pair.1) ∧
      ∀ pair ∈ pairs jar, Cookie.semicolon ∉ pair.2)
    ⟨fun h => ⟨h.1, h.2⟩, fun h => ⟨h.names, h.values⟩⟩

/-- Each cookie stands under its name and its value. -/
theorem Holds.named {cookies : List Cookie} {jar : CookieJar} (h : Holds cookies jar) :
    ∀ e ∈ jar, e.1 = (e.2.name, e.2.value) := by
  intro e he
  have hmem := h.mem_iff.mp he
  rw [applyAll_add] at hmem
  rcases mem_applyAll_insertNew hmem with hmem | hmem
  · exact nomatch hmem
  · obtain ⟨c, -, rfl⟩ := List.mem_map.mp hmem
    rfl

theorem Holds.pairs_eq {cookies : List Cookie} {jar : CookieJar} (h : Holds cookies jar) :
    pairs jar = jar.map Prod.fst :=
  List.map_congr_left fun e he => (h.named e he).symm

theorem Holds.nodup {cookies : List Cookie} {jar : CookieJar} (h : Holds cookies jar) :
    (pairs jar).Nodup := by
  have hkeys : ((applyAll (fun c j => CookieJar.add j c) cookies []).map Prod.fst).Nodup := by
    rw [applyAll_add]
    exact applyAll_insertNew_nodup _ List.nodup_nil
  rw [h.pairs_eq]
  exact ((h.map Prod.fst).nodup_iff).mpr hkeys

/-- Cookies with different names or values are all put into the jar. -/
theorem pairs_applyAll_add {cookies : List Cookie}
    (hnodup : (cookies.map fun c => (c.name, c.value)).Nodup) :
    pairs (applyAll (fun c j => CookieJar.add j c) cookies []) =
      cookies.map fun c => (c.name, c.value) := by
  have hkeys : (([] ++ cookies.map fun c : Cookie => ((c.name, c.value), c)).map Prod.fst).Nodup := by
    rw [List.nil_append, List.map_map]
    exact hnodup
  rw [applyAll_add, applyAll_insertNew_of_nodup hkeys, List.nil_append, pairs, List.map_map]
  rfl

/-- The blanks in front of a name are those that `skip_whitespaces` takes. -/
theorem skipBlanks_pair {c : Cookie} (hspace : SP ∉ c.name) (htab : c.name.head? ≠ some HT) :
    ((skipBlanks c).name, (skipBlanks c).value) = (c.name, c.value) := by
  have hskip : skip_whitespaces c.name = c.name := by
    cases hname : c.name with
    | nil => rfl
    | cons x name =>
      rw [hname] at hspace htab
      have hsp : x ≠ SP := fun heq => hspace (by rw [heq]; exact List.mem_cons_self)
      have hht : x ≠ HT := fun heq => htab (by rw [heq]; rfl)
      simp [skip_whitespaces, hsp, hht]
  show (skip_whitespaces c.name, c.value) = (c.name, c.value)
  rw [hskip]

/-- **The names and the values come back**: the jar that `addFromRaw` makes of the cookies as
they are written has those of the jar that has been written, whatever its order is. -/
theorem cookieHeader_trip {cookies : List Cookie} {jar : CookieJar} (hjar : Holds cookies jar)
    (hplain : Plain jar) (htabs : ∀ pair ∈ (pairs jar).tail, pair.1.head? ≠ some HT) :
    (CookieJar.addFromRaw [] (cookieText (jar.map Prod.snd))).2 = none ∧
      (pairs (CookieJar.addFromRaw [] (cookieText (jar.map Prod.snd))).1).Perm (pairs jar) := by
  cases jar with
  | nil => exact ⟨rfl, List.Perm.refl _⟩
  | cons e jar =>
    have hmem : ∀ x ∈ e :: jar, (x.2.name, x.2.value) ∈ pairs (e :: jar) := fun x hx =>
      List.mem_map.mpr ⟨x, hx, rfl⟩
    have hclear : ∀ d ∈ e.2 :: jar.map Prod.snd,
        Cookie.equals ∉ d.name ∧ Cookie.semicolon ∉ d.value := by
      intro d hd
      obtain ⟨x, hx, rfl⟩ := List.mem_map.mp (show d ∈ (e :: jar).map Prod.snd from hd)
      exact ⟨(hplain.names _ (hmem x hx)).1, hplain.values _ (hmem x hx)⟩
    have htail : ∀ d ∈ jar.map Prod.snd,
        ((skipBlanks d).name, (skipBlanks d).value) = (d.name, d.value) := by
      intro d hd
      obtain ⟨x, hx, rfl⟩ := List.mem_map.mp hd
      refine skipBlanks_pair (hplain.names _ (hmem x (List.mem_cons_of_mem e hx))).2.2 ?_
      exact htabs (x.2.name, x.2.value) (List.mem_map.mpr ⟨x, hx, rfl⟩)
    have hsame : (Cookie.new e.2.name e.2.value :: (jar.map Prod.snd).map skipBlanks).map
        (fun c => (c.name, c.value)) = pairs (e :: jar) := by
      calc (Cookie.new e.2.name e.2.value :: (jar.map Prod.snd).map skipBlanks).map
            (fun c => (c.name, c.value))
          = (e.2.name, e.2.value) :: (jar.map Prod.snd).map (fun c => (c.name, c.value)) := by
            rw [List.map_cons, List.map_map]
            exact congrArg _ (List.map_congr_left htail)
        _ = pairs (e :: jar) := by
            rw [List.map_map]
            rfl
    have hnodup := hjar.nodup
    rw [← hsame] at hnodup
    rw [List.map_cons, addFromRaw_text _ _ _ hclear]
    refine ⟨rfl, ?_⟩
    show (pairs (applyAll _ _ [])).Perm _
    rw [pairs_applyAll_add hnodup, hsame]

/-- Three cookies, two of them of one name; the name written first begins with a tab. -/
theorem cookieHeader_trip_three :
    (pairs (CookieJar.addFromRaw [] (lit "\tn=; a=1 2; a==")).1).Perm
      [(lit "\tn", []), (lit "a", lit "1 2"), (lit "a", lit "=")] := by
  have hjar : Holds [Cookie.new (lit "a") (lit "1 2"), Cookie.new (lit "\tn") [],
        Cookie.new (lit "a") (lit "="), Cookie.new (lit "a") (lit "1 2")]
      [((lit "\tn", []), Cookie.new (lit "\tn") []),
        ((lit "a", lit "1 2"), Cookie.new (lit "a") (lit "1 2")),
        ((lit "a", lit "="), Cookie.new (lit "a") (lit "="))] := by
    unfold Holds
    decide
  exact (cookieHeader_trip hjar (by decide) (by decide)).2

/-- **A tab in front of a name is taken for the blank behind the `;`**: of the cookies `a=1` and
`\tb=2` the second comes back as `b=2`. -/
theorem cookieHeader_tab :
    Plain [((lit "a", lit "1"), Cookie.new (lit "a") (lit "1")),
        ((lit "\tb", lit "2"), Cookie.new (lit "\tb") (lit "2"))] ∧
      pairs (CookieJar.addFromRaw [] (cookieText [Cookie.new (lit "a") (lit "1"),
        Cookie.new (lit "\tb") (lit "2")])).1 = [(lit "a", lit "1"), (lit "b", lit "2")] ∧
      ¬∀ (cookies : List Cookie) (jar : CookieJar), Holds cookies jar → Plain jar →
        (pairs (CookieJar.addFromRaw [] (cookieText (jar.map Prod.snd))).1).Perm (pairs jar) := by
  have hplain : Plain [((lit "a", lit "1"), Cookie.new (lit "a") (lit "1")),
      ((lit "\tb", lit "2"), Cookie.new (lit "\tb") (lit "2"))] := by decide
  have hread : pairs (CookieJar.addFromRaw [] (cookieText [Cookie.new (lit "a") (lit "1"),
      Cookie.new (lit "\tb") (lit "2")])).1 = [(lit "a", lit "1"), (lit "b", lit "2")] := by
    decide
  refine ⟨hplain, hread, fun h => ?_⟩
  have hall := h [Cookie.new (lit "a") (lit "1"), Cookie.new (lit "\tb") (lit "2")] _
    (List.Perm.refl _) hplain
  have hmem : (lit "\tb", lit "2") ∈ [(lit "a", lit "1"), (lit "b", lit "2")] := by
    rw [← hread]
    exact hall.mem_iff.mpr (List.mem_cons_of_mem _ List.mem_cons_self)
  exact absurd hmem (by decide)

end Pistache.Client
