import Pistache.Http.CookieTrip

/-!
# What a cookie is read from

`Cookie::fromRaw` and then `Cookie::write`, from the text on.  The loop of `fromRaw` takes one
item from the text in each pass: an attribute with its text, or an entry of `ext`.  What the
items are does not depend on the cookie, and the cookie is what they make of it one after the
other.

Principal results:

* `Cookie.fromRaw_items` — the cookie that is read is made of the items of the text.
* `Cookie.fromRaw_plain` — no text of such a cookie has a separator in it.
* `Cookie.reread_iff` — the texts of which the cookie is read back from what it is written as, with
  the age that stands in the text.
-/

set_option autoImplicit false

namespace Pistache.Http

open Replay

namespace Cookie

variable {dates : Dates} {c : Cookie}

/-! ## Items -/

/-- What one pass of the loop takes from the text. -/
inductive Item where
  | known (attr : Attribute) (text : Bytes)
  | entry (name value : Bytes)
  deriving DecidableEq

namespace Item

/-- What an item does to the cookie. -/
def set (fullDate : Bytes → Except Exn FullDate) (c : Cookie) : Item → Except Exn Cookie
  | .known .path text => .ok { c with path := some text }
  | .known .domain text => .ok { c with domain := some text }
  | .known .secure _ => .ok { c with secure := true }
  | .known .httpOnly _ => .ok { c with httpOnly := true }
  | .known .maxAge text => (strntol text).map fun n => { c with maxAge := some n }
  | .known .expires text => (fullDate text).map fun date => { c with expires := some date }
  | .entry name value => .ok { c with ext := insertNew name value c.ext }

/-- The text of a `Max-Age`. -/
def age? : Item → Option Bytes
  | .known .maxAge text => some text
  | _ => none

def entry? : Item → Option (Bytes × Bytes)
  | .entry name value => some (name, value)
  | _ => none

/-- The texts of an item end where the separators are. -/
def Plain : Item → Prop
  | .known _ text => semicolon ∉ text
  | .entry name value => PlainName name ∧ semicolon ∉ value

end Item

/-- The text of an attribute; the flags have none. -/
def attributeText (cursor : Bytes) : Attribute → Except Exn (Bytes × Bytes)
  | .secure => .ok ([], cursor)
  | .httpOnly => .ok ([], cursor)
  | .path => matchValue cursor
  | .domain => matchValue cursor
  | .maxAge => matchValue cursor
  | .expires => matchValue cursor

/-- One pass of the loop, without the cookie.  Behind an attribute the semicolon is skipped,
behind an entry of `ext` it is left. -/
def readItem (cursor : Bytes) : Except Exn (Item × Bytes) :=
  match attributes.findSome? fun a => (match_string a.1 cursor).map fun rest => (a.2, rest) with
  | some (attr, cursor) =>
    (attributeText cursor attr).map fun p => (.known attr p.1, p.2.drop 1)
  | none =>
    match match_until [equals] cursor with
    | none => .ok (.entry cursor [], [])
    | some (name, cursor) => (matchValue cursor).map fun p => (.entry name p.1, p.2)

def itemsBody : Loop.Body (List Item) UInt8 (List Item) := fun items cursor =>
  match readItem (skip_whitespaces cursor) with
  | .error _ => .inl items
  | .ok (item, cursor) =>
    if cursor = [] then .inl (items ++ [item]) else .inr (items ++ [item], cursor)

/-- The items of a text, up to an invalid one. -/
def items (str : Bytes) : List Item :=
  match match_until [equals] str with
  | none => []
  | some (_, cursor) =>
    let (_, cursor) := tokenToSemicolon (cursor.drop 1)
    if cursor = [] then [] else Loop.run itemsBody (fun items _ => items) [] (cursor.drop 1)

/-! ### The loop takes items -/

theorem matchAttributeValue_eq (fullDate : Bytes → Except Exn FullDate) (c : Cookie)
    (cursor : Bytes) (attr : Attribute) :
    matchAttributeValue fullDate c cursor attr =
      match attributeText cursor attr with
      | .error e => .error e
      | .ok (text, rest) => ((Item.known attr text).set fullDate c).map fun c => (c, rest) := by
  cases attr <;> simp only [matchAttributeValue, attributeText, bind, Except.bind, pure, Except.pure]
  case secure => rfl
  case httpOnly => rfl
  all_goals
    cases matchValue cursor with
    | error e => rfl
    | ok p => ?_
  case path.ok => rfl
  case domain.ok => rfl
  case maxAge.ok =>
    simp only [Item.set]
    cases strntol p.1 <;> rfl
  case expires.ok =>
    simp only [Item.set]
    cases fullDate p.1 <;> rfl

theorem readAttribute_eq (fullDate : Bytes → Except Exn FullDate) (c : Cookie) (cursor : Bytes) :
    readAttribute fullDate c cursor =
      match readItem cursor with
      | .error e => .error e
      | .ok (item, rest) => (item.set fullDate c).map fun c => (c, rest) := by
  unfold readAttribute readItem
  cases attributes.findSome? fun a => (match_string a.1 cursor).map fun rest => (a.2, rest) with
  | some found =>
    obtain ⟨attr, cur⟩ := found
    simp only [matchAttributeValue_eq]
    cases attributeText cur attr with
    | error e => rfl
    | ok p =>
      obtain ⟨text, rest⟩ := p
      simp only [Except.map]
      cases (Item.known attr text).set fullDate c <;> rfl
  | none =>
    cases match_until [equals] cursor with
    | none => rfl
    | some found =>
      obtain ⟨name, cur⟩ := found
      dsimp only
      cases matchValue cur <;> rfl

theorem attributeText_length {cursor text rest : Bytes} {attr : Attribute}
    (h : attributeText cursor attr = .ok (text, rest)) : rest.length ≤ cursor.length := by
  cases attr
  case secure => cases h; exact Nat.le_refl _
  case httpOnly => cases h; exact Nat.le_refl _
  all_goals exact Nat.le_of_lt (matchValue_length h)

theorem map_eq_ok {ε α β : Type} {x : Except ε α} {f : α → β} {b : β} (h : x.map f = .ok b) :
    ∃ a, x = .ok a ∧ f a = b := by
  cases x with
  | error e => cases h
  | ok a =>
    cases h
    exact ⟨a, rfl, rfl⟩

theorem readItem_length {cursor rest : Bytes} {item : Item}
    (h : readItem cursor = .ok (item, rest)) : rest = [] ∨ rest.length < cursor.length := by
  unfold readItem at h
  split at h
  · rename_i attr cur hfind
    obtain ⟨⟨text, rest'⟩, htext, heq⟩ := map_eq_ok h
    have hlen := (find_attribute_rest hfind).2
    have hle := attributeText_length htext
    simp only [Prod.mk.injEq] at heq
    rw [← heq.2, List.length_drop]
    omega
  · split at h
    · cases h
      exact .inl rfl
    · rename_i name cur hm
      obtain ⟨rfl, -⟩ := match_until_some hm
      obtain ⟨⟨text, rest'⟩, htext, heq⟩ := map_eq_ok h
      have hlt := matchValue_length htext
      simp only [Prod.mk.injEq] at heq
      rw [← heq.2, List.length_append]
      omega

theorem itemsBody_shrinks : Loop.Shrinks itemsBody := by
  intro items xs items' xs' h
  unfold itemsBody at h
  split at h
  · cases h
  · rename_i item rest hitem
    split at h
    · cases h
    · rename_i hne
      simp only [Sum.inr.injEq, Prod.mk.injEq] at h
      obtain ⟨-, rfl⟩ := h
      have hlen : (skip_whitespaces xs).length ≤ xs.length :=
        (List.dropWhile_suffix _).length_le
      rcases readItem_length hitem with h | h
      · exact absurd h hne
      · omega

/-! ### The items are plain -/

theorem tokenToSemicolon_clean (cursor : Bytes) : semicolon ∉ (tokenToSemicolon cursor).1 := by
  unfold tokenToSemicolon
  cases hm : match_until [semicolon] cursor with
  | none => exact fun hin => match_until_eq_none hm _ hin (by simp)
  | some p => exact fun hin => match_until_clean hm _ hin (by simp)

theorem matchValue_clean {cursor token rest : Bytes} (h : matchValue cursor = .ok (token, rest)) :
    semicolon ∉ token := by
  unfold matchValue at h
  split at h
  · cases h
  · split at h
    · cases h
    · simp only [Except.ok.injEq] at h
      have hclean := tokenToSemicolon_clean (cursor.drop 1)
      rwa [h] at hclean

theorem attributeText_clean {cursor text rest : Bytes} {attr : Attribute}
    (h : attributeText cursor attr = .ok (text, rest)) : semicolon ∉ text := by
  cases attr
  case secure => cases h; simp
  case httpOnly => cases h; simp
  all_goals exact matchValue_clean h

theorem readItem_plain {cursor rest : Bytes} {item : Item}
    (hblank : cursor.head? ≠ some SP ∧ cursor.head? ≠ some HT)
    (h : readItem cursor = .ok (item, rest)) : item.Plain := by
  unfold readItem at h
  split at h
  · obtain ⟨⟨text, rest'⟩, htext, heq⟩ := map_eq_ok h
    cases heq
    exact attributeText_clean htext
  · rename_i hfind
    have hattr := findSome_attributes_none hfind
    split at h
    · rename_i hm
      cases h
      exact ⟨⟨fun hin => match_until_eq_none hm _ hin (by simp), hblank, hattr⟩, by simp⟩
    · rename_i name cur hm
      obtain ⟨rfl, -⟩ := match_until_some hm
      obtain ⟨⟨value, rest'⟩, hvalue, heq⟩ := map_eq_ok h
      cases heq
      refine ⟨⟨fun hin => match_until_clean hm _ hin (by simp), ?_,
        fun ha => hattr (ha.append cur)⟩, matchValue_clean hvalue⟩
      cases name with
      | nil => simp
      | cons x name => simpa using hblank

/-! ## The cookie of the items -/

section Items

variable {fullDate : Bytes → Except Exn FullDate}

/-- What every item keeps holds of the cookie that they make. -/
theorem items_induction {P : Cookie → Prop} : ∀ {l : List Item} {c c' : Cookie},
    (∀ item ∈ l, ∀ c c' : Cookie, P c → item.set fullDate c = .ok c' → P c') → P c →
      l.foldlM (Item.set fullDate) c = .ok c' → P c'
  | [], _, _, _, hc, h => by
    cases h
    exact hc
  | item :: l, c, c', hstep, hc, h => by
    rw [List.foldlM_cons] at h
    cases hset : item.set fullDate c with
    | error e =>
      rw [hset] at h
      cases h
    | ok c₁ =>
      rw [hset] at h
      exact items_induction (fun i hi => hstep i (List.mem_cons_of_mem item hi))
        (hstep item List.mem_cons_self c c₁ hc hset) h

/-- What an item leaves of a cookie without separators. -/
theorem Item.set_plain {item : Item} {c c' : Cookie} (hitem : item.Plain) (hc : c.Plain)
    (h : item.set fullDate c = .ok c') : c'.Plain ∧ c'.name = c.name ∧ c'.value = c.value := by
  cases item with
  | entry name value =>
    cases h
    refine ⟨{ hc with extName := fun e he => ?_, extValue := fun e he => ?_ }, rfl, rfl⟩
    · rcases insertNew_mem he with he | rfl
      · exact hc.extName e he
      · exact hitem.1
    · rcases insertNew_mem he with he | rfl
      · exact hc.extValue e he
      · exact hitem.2
  | known attr text =>
    cases attr with
    | path =>
      cases h
      exact ⟨{ hc with path := fun text ht => by cases ht; exact hitem }, rfl, rfl⟩
    | domain =>
      cases h
      exact ⟨{ hc with domain := fun text ht => by cases ht; exact hitem }, rfl, rfl⟩
    | secure =>
      cases h
      exact ⟨{ hc with }, rfl, rfl⟩
    | httpOnly =>
      cases h
      exact ⟨{ hc with }, rfl, rfl⟩
    | maxAge =>
      obtain ⟨n, -, rfl⟩ := map_eq_ok h
      exact ⟨{ hc with }, rfl, rfl⟩
    | expires =>
      obtain ⟨date, -, rfl⟩ := map_eq_ok h
      exact ⟨{ hc with }, rfl, rfl⟩

/-- A date has been read by the date library. -/
theorem Item.set_expires {item : Item} {c c' : Cookie}
    (hc : ∀ date, c.expires = some date → ∃ text, fullDate text = .ok date)
    (h : item.set fullDate c = .ok c') :
    ∀ date, c'.expires = some date → ∃ text, fullDate text = .ok date := by
  cases item with
  | entry name value =>
    cases h
    exact hc
  | known attr text =>
    cases attr with
    | path => cases h; exact hc
    | domain => cases h; exact hc
    | secure => cases h; exact hc
    | httpOnly => cases h; exact hc
    | maxAge =>
      obtain ⟨n, -, rfl⟩ := map_eq_ok h
      exact hc
    | expires =>
      obtain ⟨date, hdate, rfl⟩ := map_eq_ok h
      rintro date' heq
      cases heq
      exact ⟨text, hdate⟩

theorem Item.set_ext {item : Item} {c c' : Cookie} (h : item.set fullDate c = .ok c') :
    c'.ext = applyAll (fun e l => insertNew e.1 e.2 l) item.entry?.toList c.ext := by
  cases item with
  | entry name value => cases h; rfl
  | known attr text =>
    cases attr with
    | path => cases h; rfl
    | domain => cases h; rfl
    | secure => cases h; rfl
    | httpOnly => cases h; rfl
    | maxAge => obtain ⟨n, -, rfl⟩ := map_eq_ok h; rfl
    | expires => obtain ⟨date, -, rfl⟩ := map_eq_ok h; rfl

theorem Item.set_maxAge {item : Item} {c c' : Cookie} (h : item.set fullDate c = .ok c') :
    (item.age? = none ∧ c'.maxAge = c.maxAge) ∨
      ∃ text n, item.age? = some text ∧ strntol text = .ok n ∧ c'.maxAge = some n := by
  cases item with
  | entry name value => cases h; exact .inl ⟨rfl, rfl⟩
  | known attr text =>
    cases attr with
    | path => cases h; exact .inl ⟨rfl, rfl⟩
    | domain => cases h; exact .inl ⟨rfl, rfl⟩
    | secure => cases h; exact .inl ⟨rfl, rfl⟩
    | httpOnly => cases h; exact .inl ⟨rfl, rfl⟩
    | maxAge =>
      obtain ⟨n, hn, rfl⟩ := map_eq_ok h
      exact .inr ⟨text, n, rfl, hn, rfl⟩
    | expires =>
      obtain ⟨date, -, rfl⟩ := map_eq_ok h
      exact .inl ⟨rfl, rfl⟩

/-- The entries of `ext` are inserted in their order. -/
theorem items_ext : ∀ {l : List Item} {c c' : Cookie}, l.foldlM (Item.set fullDate) c = .ok c' →
    c'.ext = applyAll (fun e l => insertNew e.1 e.2 l) (l.filterMap Item.entry?) c.ext
  | [], _, _, h => by
    cases h
    rfl
  | item :: l, c, c', h => by
    rw [List.foldlM_cons] at h
    cases hset : item.set fullDate c with
    | error e =>
      rw [hset] at h
      cases h
    | ok c₁ =>
      rw [hset] at h
      have hhead := Item.set_ext hset
      rw [items_ext h, hhead, List.filterMap_cons]
      cases item.entry? <;> rfl

/-- The last `Max-Age` counts. -/
theorem items_maxAge : ∀ {l : List Item} {c c' : Cookie},
    l.foldlM (Item.set fullDate) c = .ok c' →
      (l.filterMap Item.age? = [] ∧ c'.maxAge = c.maxAge) ∨
        ∃ text n, (l.filterMap Item.age?).getLast? = some text ∧ strntol text = .ok n ∧
          c'.maxAge = some n
  | [], _, _, h => by
    cases h
    exact .inl ⟨rfl, rfl⟩
  | item :: l, c, c', h => by
    rw [List.foldlM_cons] at h
    cases hset : item.set fullDate c with
    | error e =>
      rw [hset] at h
      cases h
    | ok c₁ =>
      rw [hset] at h
      rw [List.filterMap_cons]
      rcases items_maxAge h with ⟨hnil, hsame⟩ | ⟨text, n, hlast, hn, hc'⟩
      · rcases Item.set_maxAge hset with ⟨hage, hkeep⟩ | ⟨text, n, hage, hn, hc₁⟩
        · rw [hage]
          exact .inl ⟨hnil, hsame.trans hkeep⟩
        · rw [hage, hnil]
          exact .inr ⟨text, n, rfl, hn, hsame.trans hc₁⟩
      · right
        refine ⟨text, n, ?_, hn, hc'⟩
        cases item.age? with
        | none => exact hlast
        | some front =>
          show (front :: l.filterMap Item.age?).getLast? = some text
          rw [List.getLast?_cons, hlast]
          rfl

end Items

/-! ### The text -/

theorem readAttributes_items {c' : Cookie} : ∀ (n : Nat) {cursor : Bytes} (acc : List Item)
    (c : Cookie), cursor.length < n → readAttributes dates c cursor = .ok c' →
      ∃ l, Loop.run itemsBody (fun items _ => items) acc cursor = acc ++ l ∧
        l.foldlM (Item.set dates.fromString) c = .ok c' ∧ ∀ item ∈ l, item.Plain := by
  intro n
  induction n with
  | zero =>
    intro cursor acc c hlen
    omega
  | succ n ih =>
    intro cursor acc c hlen h
    rw [readAttributes_eq, readAttribute_eq] at h
    rw [Loop.run_eq itemsBody_shrinks]
    cases hitem : readItem (skip_whitespaces cursor) with
    | error e =>
      rw [hitem] at h
      cases h
    | ok p =>
      obtain ⟨item, rest⟩ := p
      have hplain := readItem_plain (skip_whitespaces_head cursor) hitem
      rw [hitem] at h
      dsimp only at h
      cases hset : item.set dates.fromString c with
      | error e =>
        rw [hset] at h
        cases h
      | ok c₁ =>
        rw [hset] at h
        simp only [Except.map] at h
        by_cases hrest : rest = []
        · rw [if_pos hrest] at h
          cases h
          refine ⟨[item], by simp [itemsBody, hitem, hrest], ?_, by simpa using hplain⟩
          rw [List.foldlM_cons, hset]
          rfl
        · rw [if_neg hrest] at h
          have hskip : (skip_whitespaces cursor).length ≤ cursor.length :=
            (List.dropWhile_suffix _).length_le
          have hlt := (readItem_length hitem).resolve_left hrest
          obtain ⟨l, hrun, hfold, hl⟩ := ih (acc ++ [item]) c₁ (by omega) h
          refine ⟨item :: l, ?_, ?_, List.forall_mem_cons.mpr ⟨hplain, hl⟩⟩
          · have hbody : itemsBody acc cursor = .inr (acc ++ [item], rest) := by
              simp [itemsBody, hitem, hrest]
            rw [hbody]
            simpa using hrun
          · rw [List.foldlM_cons, hset]
            exact hfold

theorem new_plain {name value : Bytes} (hname : equals ∉ name) (hvalue : semicolon ∉ value) :
    (Cookie.new name value).Plain where
  name := hname
  value := hvalue
  path text ht := by cases ht
  domain text ht := by cases ht
  extName e he := by cases he
  extValue e he := by cases he

/-- **The cookie is made of the items of the text.** -/
theorem fromRaw_items {str : Bytes} (h : fromRaw dates.fromString str = .ok c) :
    (Cookie.new c.name c.value).Plain ∧
      (items str).foldlM (Item.set dates.fromString) (Cookie.new c.name c.value) = .ok c ∧
      ∀ item ∈ items str, item.Plain := by
  unfold fromRaw at h
  unfold items
  cases hm : match_until [equals] str with
  | none =>
    rw [hm] at h
    cases h
  | some p =>
    obtain ⟨name, cur⟩ := p
    have hname : equals ∉ name := fun hin => match_until_clean hm _ hin (by simp)
    have hvalue := tokenToSemicolon_clean (cur.drop 1)
    rw [hm] at h
    dsimp only at h ⊢
    by_cases hend : (tokenToSemicolon (cur.drop 1)).2 = []
    · rw [if_pos hend] at h ⊢
      cases h
      exact ⟨new_plain hname hvalue, rfl, fun item hitem => nomatch hitem⟩
    · rw [if_neg hend] at h ⊢
      obtain ⟨l, hrun, hfold, hl⟩ := readAttributes_items _ [] _ (Nat.lt_succ_self _) h
      obtain ⟨-, hn, hv⟩ : c.Plain ∧ c.name = name ∧ c.value = (tokenToSemicolon (cur.drop 1)).1 := by
        refine items_induction (P := fun c => c.Plain ∧ c.name = name ∧
          c.value = (tokenToSemicolon (cur.drop 1)).1) (fun item hitem c c' hc hset => ?_)
          ⟨new_plain hname hvalue, rfl, rfl⟩ hfold
        obtain ⟨hplain, hn, hv⟩ := Item.set_plain (hl item hitem) hc.1 hset
        exact ⟨hplain, hn.trans hc.2.1, hv.trans hc.2.2⟩
      rw [hn, hv, hrun]
      exact ⟨new_plain hname hvalue, hfold, hl⟩

/-- No text of a cookie that has been read has a separator in it. -/
theorem fromRaw_plain {str : Bytes} (h : fromRaw dates.fromString str = .ok c) : c.Plain := by
  obtain ⟨hnew, hfold, hl⟩ := fromRaw_items h
  exact items_induction (fun item hitem c c' hc hset => (Item.set_plain (hl item hitem) hc hset).1)
    hnew hfold

theorem fromRaw_expires {str : Bytes} (h : fromRaw dates.fromString str = .ok c) :
    ∀ date, c.expires = some date → ∃ text, dates.fromString text = .ok date := by
  obtain ⟨-, hfold, -⟩ := fromRaw_items h
  exact items_induction (P := fun c => ∀ date, c.expires = some date →
    ∃ text, dates.fromString text = .ok date) (fun _ _ _ _ hc hset => Item.set_expires hc hset)
    (fun date hdate => by cases hdate) hfold

/-! ## The age -/

theorem digitValue_isdigit {x : UInt8} (h : isdigit x = true) :
    digitValue x = some (x.toNat - 48) ∧ x.toNat - 48 < 10 := by
  have hrange : 48 ≤ x ∧ x ≤ 57 := by simpa [isdigit] using h
  have hle : x.toNat ≤ 57 := UInt8.le_iff_toNat_le.mp hrange.2
  exact ⟨by rw [digitValue, if_pos hrange], by omega⟩

theorem strntol_from : ∀ {text : Bytes} {a : Nat} {n : Int32},
    text.foldlM (fun (ret : Int32) c =>
      if isdigit c then Except.ok (ret * 10 + (c.toNat - 48 : Nat).toInt32)
      else .error (Exn.std "Invalid conversion")) (Int32.ofNat a) = .ok n →
      ∃ m, digitsValue 10 a text = some m ∧ n = Int32.ofNat m
  | [], a, n, h => by
    cases h
    exact ⟨a, rfl, rfl⟩
  | x :: text, a, n, h => by
    rw [List.foldlM_cons] at h
    by_cases hx : isdigit x = true
    · obtain ⟨hvalue, hlt⟩ := digitValue_isdigit hx
      have hsum : Int32.ofNat a * 10 + (x.toNat - 48).toInt32 =
          Int32.ofNat (a * 10 + (x.toNat - 48)) := by
        rw [Int32.ofNat_add, Int32.ofNat_mul]
        rfl
      rw [if_pos hx, hsum] at h
      rw [digitsValue, hvalue]
      simp only [if_pos hlt]
      exact strntol_from h
    · rw [if_neg hx] at h
      cases h

/-- The number is the one that the digits denote, reduced to an `int`. -/
theorem strntol_value {text : Bytes} {n : Int32} (h : strntol text = .ok n) :
    ∃ m, digitsValue 10 0 text = some m ∧ n = Int32.ofNat m := strntol_from h

theorem ofNat_exact {m : Nat} : (Int32.ofNat m).toInt = m ↔ m < 2 ^ 31 := by
  rw [Int32.toInt_ofNat', show Int32.size = 2 ^ 32 from rfl]
  constructor
  · intro h
    have := Int.bmod_lt (x := (m : Int)) (show 0 < 2 ^ 32 by decide)
    omega
  · intro h
    exact Int.bmod_eq_of_le (by omega) (by omega)

/-! ## Read, written and read again -/

/-- The entries of `ext` in a text. -/
def entries (str : Bytes) : List (Bytes × Bytes) := (items str).filterMap Item.entry?

/-- The texts of the `Max-Age`s. -/
def ages (str : Bytes) : List Bytes := (items str).filterMap Item.age?

/-- What the digits of the last `Max-Age` denote. -/
def ageValue (str : Bytes) : Option Nat := (ages str).getLast?.bind (digitsValue 10 0)

/-- Two cookies that agree; `ext` is a map, whose entries are in any order. -/
structure Same (c c' : Cookie) : Prop where
  name : c'.name = c.name
  value : c'.value = c.value
  path : c'.path = c.path
  domain : c'.domain = c.domain
  maxAge : c'.maxAge = c.maxAge
  expires : c'.expires = c.expires
  secure : c'.secure = c.secure
  httpOnly : c'.httpOnly = c.httpOnly
  ext : c'.ext.Perm c.ext

/-- The cookie is read from what it is written as, with the entries of `ext` in the order given. -/
def Reread (dates : Dates) (c : Cookie) (ext : List (Bytes × Bytes)) : Prop :=
  ∃ c', fromRaw dates.fromString ({ c with ext }.write dates) = .ok c' ∧ Same c c'

/-- The age is the number that stands in the text. -/
def AgeExact (str : Bytes) (c : Cookie) : Prop :=
  ∀ n, c.maxAge = some n → ∃ m : Nat, ageValue str = some m ∧ n.toInt = m

/-- The entries of `ext` in the text have one name. -/
def OneName (str : Bytes) : Prop := ∀ e ∈ entries str, ∀ f ∈ entries str, e.1 = f.1

/-- The age in the text is one of an `int`. -/
def AgeFits (str : Bytes) : Prop := ∀ m ∈ ageValue str, m < 2 ^ 31

theorem fromRaw_ext {str : Bytes} (h : fromRaw dates.fromString str = .ok c) :
    c.ext = applyAll (fun e l => insertNew e.1 e.2 l) (entries str) [] :=
  items_ext (fromRaw_items h).2.1

/-- The age is the one of the text, reduced to an `int`. -/
theorem fromRaw_maxAge {str : Bytes} (h : fromRaw dates.fromString str = .ok c) :
    c.maxAge = (ageValue str).map Int32.ofNat := by
  rcases items_maxAge (fromRaw_items h).2.1 with ⟨hnil, hnone⟩ | ⟨text, n, hlast, hn, hage⟩
  · have hages : ages str = [] := hnil
    rw [hnone, ageValue, hages]
    rfl
  · have hages : (ages str).getLast? = some text := hlast
    obtain ⟨m, hm, rfl⟩ := strntol_value hn
    rw [hage, ageValue, hages, Option.bind_some, hm]
    rfl

theorem ageExact_iff {str : Bytes} (h : fromRaw dates.fromString str = .ok c) :
    AgeExact str c ↔ AgeFits str := by
  have hage := fromRaw_maxAge h
  constructor
  · intro hexact m hm
    rw [Option.mem_def] at hm
    obtain ⟨m', hm', hvalue⟩ := hexact (Int32.ofNat m) (by rw [hage, hm]; rfl)
    rw [hm, Option.some.injEq] at hm'
    subst hm'
    exact ofNat_exact.mp hvalue
  · intro hfits n hn
    rw [hage] at hn
    obtain ⟨m, hm, rfl⟩ := Option.map_eq_some_iff.mp hn
    exact ⟨m, hm, ofNat_exact.mpr (hfits m hm)⟩

theorem plain_perm {ext : List (Bytes × Bytes)} (hc : c.Plain) (hext : ext.Perm c.ext) :
    ({ c with ext } : Cookie).Plain :=
  { hc with
    extName := fun e he => hc.extName e (hext.mem_iff.mp he)
    extValue := fun e he => hc.extValue e (hext.mem_iff.mp he) }

/-- **A cookie that is read, written and read again** is the same, and its age the one that stood
in the text, if and only if the entries of `ext` in the text have one name and the digits of the
last `Max-Age` denote an `int`. -/
theorem reread_iff {str : Bytes} {ext : List (Bytes × Bytes)}
    (hdates : ∀ text date, dates.fromString text = .ok date →
      dates.fromString (dates.write date) = .ok date)
    (h : fromRaw dates.fromString str = .ok c) (hext : ext.Perm c.ext) :
    Reread dates c ext ∧ AgeExact str c ↔ OneName str ∧ AgeFits str := by
  have hplain := plain_perm (fromRaw_plain h) hext
  have hone : c.ext.length ≤ 1 ↔ OneName str := by
    rw [fromRaw_ext h]
    exact applyAll_insertNew_length_le_one
  rw [ageExact_iff h, and_congr_left_iff]
  intro hfits
  constructor
  · rintro ⟨c', hread, hsame⟩
    obtain ⟨-, expires, -, -, rfl⟩ := (fromRaw_write_ok hplain).mp hread
    have hlen : ext.length ≤ 1 := extRead_length (hsame.ext.trans hext.symm)
    exact hone.mp (hext.length_eq ▸ hlen)
  · intro hname
    have hlen : ext.length ≤ 1 := hext.length_eq ▸ hone.mpr hname
    have hback : ReadBack dates { c with ext } :=
      { maxAge := fun n hn => by
          obtain ⟨m, -, hm⟩ := (ageExact_iff h).mpr hfits n hn
          omega
        expires := fun date hdate => by
          obtain ⟨text, htext⟩ := fromRaw_expires h date hdate
          exact hdates text date htext
        ext := hlen }
    exact ⟨_, (fromRaw_write_iff hplain).mpr hback,
      { name := rfl, value := rfl, path := rfl, domain := rfl, maxAge := rfl, expires := rfl,
        secure := rfl, httpOnly := rfl, ext := hext }⟩

/-- The date library at one date. -/
def almanac : Dates where
  write _ := lit "Wed, 09 Jun 2021 10:18:14.000000000 UTC"
  fromString text :=
    if text = lit "Wed, 09 Jun 2021 10:18:14.000000000 UTC" ∨
        text = lit "Wed, 09 Jun 2021 10:18:14 GMT" then
      .ok ⟨1623233894000000000⟩
    else .error (.std "Invalid Date format")
  write_plain _ := by decide

theorem almanac_reads {text : Bytes} {date : FullDate} (h : almanac.fromString text = .ok date) :
    almanac.fromString (almanac.write date) = .ok date := by
  have hdate : date = ⟨1623233894000000000⟩ := by
    simp only [almanac] at h
    split at h
    · cases h
      rfl
    · cases h
  subst hdate
  decide

/-- Five attributes and two entries of one name behind them. -/
theorem reread_seven :
    Reread almanac
        { name := lit "lang", value := lit "en-US", path := some (lit "/"), domain := none,
          expires := some ⟨1623233894000000000⟩, maxAge := some 60, secure := true, httpOnly := true,
          ext := [(lit ";a", lit "1")] } [(lit ";a", lit "1")] ∧
      AgeExact (lit "lang=en-US; httponly; Max-Age=060; " ++
          lit "Expires=Wed, 09 Jun 2021 10:18:14 GMT; Path=/; Secure;;a=1;a=2")
        { name := lit "lang", value := lit "en-US", path := some (lit "/"), domain := none,
          expires := some ⟨1623233894000000000⟩, maxAge := some 60, secure := true, httpOnly := true,
          ext := [(lit ";a", lit "1")] } :=
  (reread_iff (fun _ _ => almanac_reads) (by decide) (.refl _)).mpr
    ⟨by unfold OneName; decide, by unfold AgeFits; decide⟩

/-- **A second entry of `ext` comes back under another name**, and a `Max-Age` above an `int`
wraps around. -/
theorem fromString_entries :
    fromRaw almanac.fromString (lit "a=b; x=1; y=2") =
        .ok { Cookie.new (lit "a") (lit "b") with ext := [(lit "x", lit "1"), (lit "; y", lit "2")] } ∧
      lit "a=b; ; y=2; x=1" = write almanac
        { Cookie.new (lit "a") (lit "b") with ext := [(lit "; y", lit "2"), (lit "x", lit "1")] } ∧
      fromRaw almanac.fromString (lit "a=b; ; y=2; x=1") =
        .ok { Cookie.new (lit "a") (lit "b") with
          ext := [(lit "; y", lit "2"), (lit "; x", lit "1")] } ∧
      fromRaw almanac.fromString (lit "a=b; Max-Age=4294967356") =
        .ok { Cookie.new (lit "a") (lit "b") with maxAge := some 60 } ∧
      (¬∀ (dates : Dates) (str : Bytes) (c : Cookie) (ext : List (Bytes × Bytes)),
        (∀ text date, dates.fromString text = .ok date →
          dates.fromString (dates.write date) = .ok date) →
        fromRaw dates.fromString str = .ok c → ext.Perm c.ext → Reread dates c ext) ∧
      ¬∀ (dates : Dates) (str : Bytes) (c : Cookie),
        fromRaw dates.fromString str = .ok c → AgeExact str c := by
  have hfirst : fromRaw almanac.fromString (lit "a=b; x=1; y=2") =
      .ok { Cookie.new (lit "a") (lit "b") with
        ext := [(lit "x", lit "1"), (lit "; y", lit "2")] } := by decide
  have hwrite : lit "a=b; ; y=2; x=1" = write almanac
      { Cookie.new (lit "a") (lit "b") with
        ext := [(lit "; y", lit "2"), (lit "x", lit "1")] } := by decide
  have hagain : fromRaw almanac.fromString (lit "a=b; ; y=2; x=1") =
      .ok { Cookie.new (lit "a") (lit "b") with
        ext := [(lit "; y", lit "2"), (lit "; x", lit "1")] } := by decide
  have hage : fromRaw almanac.fromString (lit "a=b; Max-Age=4294967356") =
      .ok { Cookie.new (lit "a") (lit "b") with maxAge := some 60 } := by decide
  refine ⟨hfirst, hwrite, hagain, hage, fun hall => ?_, fun hall => ?_⟩
  · obtain ⟨c', hread, hsame⟩ := hall almanac _ _ [(lit "; y", lit "2"), (lit "x", lit "1")]
      (fun _ _ => almanac_reads) hfirst (.swap _ _ [])
    have hread' : fromRaw almanac.fromString (lit "a=b; ; y=2; x=1") = .ok c' := by
      rw [hwrite]
      exact hread
    rw [hagain] at hread'
    cases hread'
    have hmem := hsame.ext.mem_iff (a := (lit "x", lit "1"))
    exact absurd (hmem.mpr List.mem_cons_self) (by decide)
  · obtain ⟨m, hm, hn⟩ := hall almanac _ _ hage 60 rfl
    have hvalue : ageValue (lit "a=b; Max-Age=4294967356") = some 4294967356 := by decide
    rw [hvalue] at hm
    cases hm
    exact absurd hn (by decide)

end Cookie

end Pistache.Http
