import Mathlib.Tactic.IntervalCases
import Pistache.Http.HeaderParsers
import Pistache.Lib.Descending

/-!
# Accept-Encoding

What `AcceptEncoding::parseRaw` makes of a list of codings, and `getBestAcceptEncoding`, which
takes the first of the parsed list that is supported.  A quality with a dot needs a digit behind
it.

Principal results:

* `AcceptEncoding.run_list` — the list of a value, element by element.
* `AcceptEncoding.accept_list` — the parsed list is a stable sort of the elements, and the encoding
  that is chosen has the greatest quality.
-/

set_option autoImplicit false

namespace Pistache.Http

open Header (strToQvalue qvalueLen qint dot Stops)

namespace AcceptEncoding

/-! ## The choice -/

/-- The encodings that a build of the library has been given. -/
structure Build where
  zstd : Bool
  brotli : Bool
  deflate : Bool

/-- `encodingSupported`. -/
def encodingSupported (build : Build) : Header.Encoding → Bool
  | .Zstd => build.zstd
  | .Br => build.brotli
  | .Deflate => build.deflate
  | .Identity => true
  | _ => false

/-- `Request::getBestAcceptEncoding`, given the encodings of the header if there is one. -/
def getBestAcceptEncoding (build : Build) (maybe_header : Option (List (Header.Encoding × Nat))) :
    Header.Encoding :=
  match maybe_header with
  | none => .Identity
  | some encodings =>
    match encodings.find? fun encoding => encodingSupported build encoding.1 ∧ encoding.2 ≠ 0 with
    | some encoding => encoding.1
    | none => .Identity

/-! ## The grammar -/

/-- Optional white space. -/
def Ows (text : Bytes) : Prop := ∀ c ∈ text, is_http_space c = true

/-- The thousandths that the digits behind a dot make. -/
def thousandths (ds : Bytes) : Nat :=
  ((ds.getD 0 48).toNat - 48) * 100 + ((ds.getD 1 48).toNat - 48) * 10 + ((ds.getD 2 48).toNat - 48)

/-- A quality value and its thousandths: `0` or `1`, and behind a dot from `least` to three
digits, zeros behind a `1`. -/
inductive QValue (least : Nat) : Bytes → Nat → Prop where
  | zero : QValue least [48] 0
  | one : QValue least [49] 1000
  | fraction (ds : Bytes) (digits : ∀ c ∈ ds, isdigit c = true) (hleast : least ≤ ds.length)
      (hthree : ds.length ≤ 3) : QValue least (48 :: dot :: ds) (thousandths ds)
  | unit (n : Nat) (hleast : least ≤ n) (hthree : n ≤ 3) :
      QValue least (49 :: dot :: List.replicate n 48) 1000

/-- The weight of an element, `OWS ; OWS q= qvalue`. -/
structure Weight (least : Nat) where
  before : Bytes
  after : Bytes
  text : Bytes
  value : Nat
  before_ows : Ows before
  after_ows : Ows after
  qvalue : QValue least text value

/-- An element: a coding, and a weight if there is one. -/
structure Item (least : Nat) where
  coding : Bytes
  weight : Option (Weight least)
  coding_ne : coding ≠ []
  coding_token : ∀ c ∈ coding, is_http_token c = true

variable {least : Nat}

def Weight.write (w : Weight least) : Bytes := w.before ++ 59 :: (w.after ++ 113 :: 61 :: w.text)

def Item.write (item : Item least) : Bytes := item.coding ++ item.weight.elim [] Weight.write

/-- The entry of an element: the coding, and its quality or 1. -/
def Item.entry (item : Item least) : Header.Encoding × Nat :=
  (Header.encodingFromString item.coding, item.weight.elim 1000 Weight.value)

/-- A list of elements with commas between them, and white space around the commas. -/
inductive IsList : List (Item least) → Bytes → Prop where
  | nil : IsList [] []
  | last (item : Item least) (behind : Bytes) (hbehind : Ows behind) :
      IsList [item] (item.write ++ behind)
  | cons (item next : Item least) (items : List (Item least)) (before after text : Bytes)
      (hbefore : Ows before) (hafter : Ows after) (h : IsList (next :: items) text) :
      IsList (item :: next :: items) (item.write ++ before ++ comma :: (after ++ text))

/-! ## Qualities -/

theorem isdigit_bounds {c : UInt8} (h : isdigit c = true) : 48 ≤ c.toNat ∧ c.toNat ≤ 57 := by
  unfold isdigit at h
  rw [decide_eq_true_iff] at h
  exact h

/-- The passes of the loop over digits. -/
theorem qvalueLen_digits : ∀ {passes len : Nat} {ds : Bytes}, (∀ c ∈ ds, isdigit c = true) →
    ds.length < passes → qvalueLen passes len ds = some (len + ds.length)
  | 0, _, _, _, h => absurd h (Nat.not_lt_zero _)
  | passes + 1, len, [], _, _ => by
    unfold qvalueLen
    rw [if_neg (fun h => absurd h.1 (by decide)), if_pos (by decide)]
    rfl
  | passes + 1, len, c :: ds, hds, h => by
    have hc := hds c List.mem_cons_self
    have hdot : c ≠ dot := by
      rintro rfl
      exact absurd hc (by decide)
    have ih : qvalueLen passes (len + 1) ds = some (len + 1 + ds.length) :=
      qvalueLen_digits (fun d hd => hds d (List.mem_cons_of_mem c hd)) (by simpa using h)
    unfold qvalueLen
    rw [List.headD_cons, if_neg (fun h => hdot h.1), if_neg (by simp [hc]), List.drop_succ_cons,
      List.drop_zero, ih, List.length_cons]
    congr 1
    omega

theorem qvalueLen_fraction {d : UInt8} (hd : isdigit d = true) {ds : Bytes}
    (hds : ∀ c ∈ ds, isdigit c = true) (hthree : ds.length ≤ 3) :
    qvalueLen 6 0 (d :: dot :: ds) = some (2 + ds.length) := by
  have hdot : d ≠ dot := by
    rintro rfl
    exact absurd hd (by decide)
  have hrest : qvalueLen 4 2 ds = some (2 + ds.length) := qvalueLen_digits hds (by omega)
  have hstep : qvalueLen 5 1 (dot :: ds) = qvalueLen 4 2 ds := by
    rw [qvalueLen, List.headD_cons, if_neg (by simp), if_neg (by simp), List.drop_succ_cons, List.drop_zero]
  rw [qvalueLen, List.headD_cons, if_neg (fun h => hdot h.1), if_neg (by simp [hd]),
    List.drop_succ_cons, List.drop_zero, hstep, hrest]

/-- The digits behind the second character, as `qint` adds them up. -/
theorem qint_fraction {a b : UInt8} (ha : isdigit a = true) {ds : Bytes} (hne : ds ≠ [])
    (hds : ∀ c ∈ ds, isdigit c = true) (hthree : ds.length ≤ 3) :
    qint (a :: b :: ds) (2 + ds.length) = (a.toNat - 48) * 1000 + thousandths ds := by
  have hbounds : ∀ c ∈ ds, 48 ≤ c.toNat ∧ c.toNat ≤ 57 := fun c hc => isdigit_bounds (hds c hc)
  have ha' := isdigit_bounds ha
  have hzero : UInt8.toNat 48 = 48 := rfl
  rcases ds with _ | ⟨x, _ | ⟨y, _ | ⟨z, _ | ⟨w, ds⟩⟩⟩⟩
  · exact absurd rfl hne
  · have hx := hbounds x (by simp)
    simp only [qint, Header.qvalueDigit, thousandths, List.getD_cons_zero, List.getD_cons_succ,
      List.getD_nil, List.length_cons, List.length_nil]
    norm_num
    omega
  · have hx := hbounds x (by simp)
    have hy := hbounds y (by simp)
    simp only [qint, Header.qvalueDigit, thousandths, List.getD_cons_zero, List.getD_cons_succ,
      List.getD_nil, List.length_cons, List.length_nil]
    norm_num
    omega
  · simp only [qint, Header.qvalueDigit, thousandths, List.getD_cons_zero, List.getD_cons_succ,
      List.length_cons, List.length_nil]
    norm_num
    omega
  · simp only [List.length_cons] at hthree
    omega

theorem thousandths_le {ds : Bytes} (hds : ∀ c ∈ ds, isdigit c = true) : thousandths ds ≤ 999 := by
  have hbounds : ∀ i, (ds.getD i 48).toNat ≤ 57 := by
    intro i
    rw [List.getD_eq_getElem?_getD]
    cases hi : ds[i]? with
    | none => exact Nat.le_of_ble_eq_true rfl
    | some c => exact (isdigit_bounds (hds c (List.mem_of_getElem? hi))).2
  have h₀ := hbounds 0
  have h₁ := hbounds 1
  have h₂ := hbounds 2
  unfold thousandths
  omega

/-- **A quality value of the grammar is read**, if there is a digit behind its dot. -/
theorem strToQvalue_qvalue {text : Bytes} {n : Nat} (h : QValue 1 text n) :
    strToQvalue text = some (n, text.length) := by
  cases h with
  | zero => decide
  | one => decide
  | unit n hleast hthree =>
    interval_cases n
    · decide
    · decide
    · decide
  | fraction ds digits hleast hthree =>
    have hlen := qvalueLen_fraction (show isdigit 48 = true by decide) digits hthree
    have hint : qint (48 :: dot :: ds) (2 + ds.length) = thousandths ds := by
      rw [qint_fraction (by decide) (List.ne_nil_of_length_pos hleast) digits hthree]
      exact Nat.zero_add _
    have hbound := thousandths_le digits
    have hsize : ¬(2 + ds.length < 1 ∨ 2 + ds.length = 2 ∨ 2 + ds.length > 5) := by omega
    have htext : (48 :: dot :: ds).length = 2 + ds.length := by
      rw [List.length_cons, List.length_cons]
      omega
    rw [strToQvalue, hlen, htext]
    dsimp only
    rw [if_neg hsize, if_neg (by simp), if_neg (by rw [hint]; omega), hint]

/-! ## Elements -/

/-- What stands behind the white space behind an element: nothing, or a comma. -/
def AtComma (tail : Bytes) : Prop := tail = [] ∨ ∃ text, tail = comma :: text

theorem Ows.cases {text : Bytes} (h : Ows text) : ∀ c ∈ text, c = SP ∨ c = HT := by
  intro c hc
  have hspace := h c hc
  unfold is_http_space at hspace
  exact decide_eq_true_iff.mp hspace

theorem stops_blank {c : UInt8} (hc : c = SP ∨ c = HT) (text : Bytes) : Stops (c :: text) := by
  rcases hc with rfl | rfl <;> constructor <;> rw [List.headD_cons] <;> decide

theorem stops_ows {text : Bytes} (h : Ows text) {memory : Bytes} (hm : Stops memory) :
    Stops (text ++ memory) := by
  cases text with
  | nil => exact hm
  | cons c text => exact stops_blank (h.cases c List.mem_cons_self) (text ++ memory)

theorem AtComma.stops {tail behind : Bytes} (h : AtComma tail) (hb : Stops behind) :
    Stops (tail ++ behind) := by
  rcases h with rfl | ⟨text, rfl⟩
  · exact hb
  · exact .of_head rfl (.inr (.inr (.inl rfl)))

theorem QValue.chars {text : Bytes} {n : Nat} (h : QValue least text n) :
    ∀ c ∈ text, c = dot ∨ isdigit c = true := by
  have h₀ : isdigit 48 = true := by decide
  have h₁ : isdigit 49 = true := by decide
  intro c hc
  cases h with
  | zero =>
    rw [List.mem_singleton] at hc
    exact .inr (hc ▸ h₀)
  | one =>
    rw [List.mem_singleton] at hc
    exact .inr (hc ▸ h₁)
  | fraction ds digits hleast hthree =>
    rcases List.mem_cons.mp hc with rfl | hc
    · exact .inr h₀
    · exact (List.mem_cons.mp hc).imp_right (digits c)
  | unit n hleast hthree =>
    rcases List.mem_cons.mp hc with rfl | hc
    · exact .inr h₁
    · refine (List.mem_cons.mp hc).imp_right fun hc => ?_
      rw [(List.mem_replicate.mp hc).2]
      exact h₀

/-- There is no comma in an element. -/
theorem Item.no_comma (item : Item least) {behind : Bytes} (hbehind : Ows behind) :
    ∀ c ∈ item.write ++ behind, c ≠ comma := by
  have hows : ∀ {text : Bytes}, Ows text → comma ∉ text := fun h hin => by
    rcases h.cases comma hin with heq | heq
    · exact absurd heq (by decide)
    · exact absurd heq (by decide)
  have hcoding : comma ∉ item.coding := fun hin =>
    absurd (item.coding_token comma hin) (by decide)
  rintro c hc rfl
  rcases List.mem_append.mp hc with hc | hc
  · rcases List.mem_append.mp hc with hc | hc
    · exact hcoding hc
    · cases hw : item.weight with
      | none =>
        rw [hw] at hc
        cases hc
      | some w =>
        rw [hw] at hc
        have htext : comma ∉ w.text := fun hin => by
          rcases w.qvalue.chars comma hin with heq | heq
          · exact absurd heq (by decide)
          · exact absurd heq (by decide)
        simp only [Option.elim_some, Weight.write, List.mem_append, List.mem_cons] at hc
        rcases hc with hc | hc | hc | hc | hc | hc
        · exact hows w.before_ows hc
        · exact absurd hc (by decide)
        · exact hows w.after_ows hc
        · exact absurd hc (by decide)
        · exact absurd hc (by decide)
        · exact htext hc
  · exact hows hbehind hc

/-- The part behind the coding begins with white space or a semicolon, if it is not empty. -/
theorem Item.behind_coding (item : Item least) {behind : Bytes} (hbehind : Ows behind) :
    (item.write ++ behind).takeWhile is_http_token = item.coding ∧
      (item.write ++ behind).dropWhile is_http_token = item.weight.elim [] Weight.write ++ behind := by
  have hows : ∀ {text : Bytes}, Ows text → ∀ more : Bytes,
      more.takeWhile is_http_token = [] → (text ++ more).takeWhile is_http_token = [] := by
    intro text h more hmore
    cases text with
    | nil => exact hmore
    | cons c text =>
      have hc : is_http_token c = false := by
        rcases h.cases c List.mem_cons_self with rfl | rfl
        · decide
        · decide
      rw [List.cons_append, List.takeWhile_cons, hc]
      rfl
  have hrest : (item.weight.elim [] Weight.write ++ behind).takeWhile is_http_token = [] := by
    cases item.weight with
    | none => simpa using hows hbehind [] rfl
    | some w =>
      have hsemicolon : is_http_token 59 = false := by decide
      rw [Option.elim_some, Weight.write, List.append_assoc]
      refine hows w.before_ows _ ?_
      rw [List.cons_append, List.takeWhile_cons, hsemicolon]
      rfl
  have hdrop : (item.weight.elim [] Weight.write ++ behind).dropWhile is_http_token =
      item.weight.elim [] Weight.write ++ behind := by
    have hsplit := List.takeWhile_append_dropWhile (p := is_http_token)
      (l := item.weight.elim [] Weight.write ++ behind)
    rw [hrest, List.nil_append] at hsplit
    exact hsplit
  rw [Item.write, List.append_assoc, List.takeWhile_append_of_pos item.coding_token, hrest,
    List.append_nil, List.dropWhile_append_of_pos item.coding_token, hdrop]
  exact ⟨rfl, rfl⟩

/-- The quality of an element, whatever is behind it. -/
theorem qvalue_item (item : Item 1) {behind : Bytes} (hbehind : Ows behind) {memory : Bytes}
    (hm : Stops memory) :
    qvalue ((item.weight.elim [] Weight.write ++ behind).dropWhile (· ≠ 59)) memory =
      some (item.weight.elim 1000 Weight.value) := by
  have hows : ∀ {text : Bytes}, Ows text → ∀ c ∈ text, decide (c ≠ 59) = true := by
    intro text h c hc
    rcases h.cases c hc with rfl | rfl
    · decide
    · decide
  cases item.weight with
  | none =>
    have hnil : (([] : Bytes) ++ behind).dropWhile (· ≠ 59) = [] :=
      List.dropWhile_eq_nil_iff.mpr (hows hbehind)
    rw [Option.elim_none, Option.elim_none, hnil]
    rfl
  | some w =>
    have hsemicolon : (w.write ++ behind).dropWhile (· ≠ 59) =
        59 :: (w.after ++ 113 :: 61 :: (w.text ++ behind)) := by
      have htext : w.write ++ behind = w.before ++ 59 :: (w.after ++ 113 :: 61 :: (w.text ++ behind)) := by
        simp [Weight.write]
      rw [htext, List.dropWhile_append_of_pos (hows w.before_ows)]
      rfl
    have hq : is_http_space 113 = false := by decide
    have hspaces : (w.after ++ 113 :: 61 :: (w.text ++ behind)).dropWhile is_http_space =
        113 :: 61 :: (w.text ++ behind) := by
      rw [List.dropWhile_append_of_pos w.after_ows, List.dropWhile_cons, hq]
      rfl
    have hvalue : strToQvalue (w.text ++ (behind ++ memory)) = some (w.value, w.text.length) := by
      rw [Header.strToQvalue_append (stops_ows hbehind hm), strToQvalue_qvalue w.qvalue]
    rw [Option.elim_some, Option.elim_some, hsemicolon, qvalue, if_neg (by simp),
      List.drop_succ_cons, List.drop_zero, hspaces]
    simp [hvalue]

/-- **One element is read**: its entry is put in, and the cursor goes to the next coding. -/
theorem body_item (item : Item 1) {before tail behind : Bytes} (hbefore : Ows before)
    (htail : AtComma tail) (hb : Stops behind) (encodings_ : List (Header.Encoding × Nat)) :
    body behind encodings_ (item.write ++ before ++ tail) =
      .inr (Descending.insert Prod.snd item.entry encodings_, tail.dropWhile fun c => !is_http_token c) := by
  have hne : item.write ++ before ++ tail ≠ [] := by
    have := item.coding_ne
    simp [Item.write, this]
  have helement : element (item.write ++ before ++ tail) = (item.write ++ before, tail) := by
    have hall : ∀ c ∈ item.write ++ before, decide (c ≠ comma) = true := fun c hc =>
      decide_eq_true (item.no_comma hbefore c hc)
    have hcomma : tail.takeWhile (fun c => decide (c ≠ comma)) = [] ∧
        tail.dropWhile (fun c => decide (c ≠ comma)) = tail := by
      rcases htail with rfl | ⟨text, rfl⟩
      · exact ⟨rfl, rfl⟩
      · exact ⟨rfl, rfl⟩
    rw [element, List.span_eq_takeWhile_dropWhile, List.takeWhile_append_of_pos hall,
      List.dropWhile_append_of_pos hall, hcomma.1, hcomma.2, List.append_nil]
  obtain ⟨htoken, hrest⟩ := item.behind_coding hbefore
  unfold body
  rw [if_neg hne, helement]
  dsimp only
  rw [htoken, hrest, qvalue_item item hbefore (htail.stops hb)]
  dsimp only
  rw [if_neg item.coding_ne]
  rfl

/-! ## Lists -/

/-- **The loop over a list of elements.** -/
theorem run_list {items : List (Item 1)} {text : Bytes} (h : IsList items text) {behind : Bytes}
    (hb : Stops behind) : ∀ encodings_ : List (Header.Encoding × Nat),
      Loop.run (body behind) (fun encodings_ _ => encodings_) encodings_ text =
        (items.map Item.entry).foldl (fun l e => Descending.insert Prod.snd e l) encodings_ := by
  induction h with
  | nil =>
    intro encodings_
    rw [Loop.run_eq (body_shrinks behind), body, if_pos rfl]
    rfl
  | last item spaces hspaces =>
    intro encodings_
    have hbody := body_item item hspaces (.inl rfl) hb encodings_
    rw [List.append_nil] at hbody
    rw [Loop.run_eq (body_shrinks behind), hbody]
    dsimp only
    rw [List.dropWhile_nil, Loop.run_eq (body_shrinks behind), body, if_pos rfl]
    rfl
  | cons item next items before after text hbefore hafter htext ih =>
    intro encodings_
    have hnext : ∃ c rest, text = c :: rest ∧ is_http_token c = true := by
      obtain ⟨c, coding, hcoding⟩ := List.exists_cons_of_ne_nil next.coding_ne
      have hc := next.coding_token c (by rw [hcoding]; exact List.mem_cons_self)
      cases htext with
      | last next behind hbehind => exact ⟨c, _, by rw [Item.write, hcoding]; rfl, hc⟩
      | cons next next' items before after text _ _ _ =>
        exact ⟨c, _, by rw [Item.write, hcoding]; rfl, hc⟩
    obtain ⟨c, rest, rfl, hc⟩ := hnext
    have hskip : (comma :: (after ++ c :: rest)).dropWhile (fun c => !is_http_token c) = c :: rest := by
      have hcomma : (!is_http_token comma) = true := by decide
      have hspaces : ∀ d ∈ after, (!is_http_token d) = true := by
        intro d hd
        rcases hafter.cases d hd with rfl | rfl
        · decide
        · decide
      rw [List.dropWhile_cons, if_pos hcomma, List.dropWhile_append_of_pos hspaces,
        List.dropWhile_cons, if_neg (by rw [hc]; decide)]
    rw [Loop.run_eq (body_shrinks behind), body_item item hbefore (.inr ⟨_, rfl⟩) hb]
    dsimp only
    rw [hskip, ih]
    rfl

/-- What stands behind a value: nothing, when it has been copied, or the CR of its line. -/
def Behind (behind : Bytes) : Prop := behind = [] ∨ behind.head? = some CR

instance (behind : Bytes) : Decidable (Behind behind) := by unfold Behind; infer_instance

theorem Behind.stops {behind : Bytes} (h : Behind behind) : Stops behind := by
  rcases h with rfl | h
  · exact .nil
  · cases behind with
    | nil => exact .nil
    | cons c behind =>
      obtain rfl : c = CR := by simpa using h
      exact .of_head rfl (.inr (.inl rfl))

/-- The encoding is one of those that are wanted and supported, and none of them has a greater
quality; without any it is the identity. -/
structure Best (build : Build) (entries : List (Header.Encoding × Nat)) (best : Header.Encoding) :
    Prop where
  chosen : (∃ e ∈ entries, encodingSupported build e.1 = true ∧ e.2 ≠ 0) →
    encodingSupported build best = true ∧ ∃ q, (best, q) ∈ entries ∧ q ≠ 0 ∧
      ∀ e ∈ entries, encodingSupported build e.1 = true → e.2 ≤ q
  identity : (¬∃ e ∈ entries, encodingSupported build e.1 = true ∧ e.2 ≠ 0) → best = .Identity

/-- The first of a descending list is the best. -/
theorem best_of_sorts (build : Build) {entries encodings : List (Header.Encoding × Nat)}
    (h : Descending.Sorts Prod.snd entries encodings) :
    Best build entries (getBestAcceptEncoding build (some encodings)) := by
  unfold getBestAcceptEncoding
  dsimp only
  cases hfind : encodings.find? fun e => decide (encodingSupported build e.1 = true ∧ e.2 ≠ 0) with
  | none =>
    have hnone : ¬∃ e ∈ entries, encodingSupported build e.1 = true ∧ e.2 ≠ 0 := by
      rintro ⟨e, he, hp⟩
      have := h.find_none hfind e he
      exact absurd hp (of_decide_eq_false this)
    exact ⟨fun hsome => absurd hsome hnone, fun _ => rfl⟩
  | some e =>
    obtain ⟨hmem, hp, hmax⟩ := h.find hfind
    obtain ⟨hsupported, hq⟩ := of_decide_eq_true hp
    refine ⟨fun _ => ⟨hsupported, e.2, hmem, hq, fun e' he' hsupported' => ?_⟩,
      fun hnone => absurd ⟨e, hmem, hsupported, hq⟩ hnone⟩
    rcases Nat.eq_zero_or_pos e'.2 with hzero | hpos
    · omega
    · exact hmax e' he' (decide_eq_true ⟨hsupported', by omega⟩)

/-- **A list of codings is read**: one entry for each element, in descending order of the
qualities and otherwise in the order of the elements; and the best of the supported ones is
chosen. -/
theorem accept_list {items : List (Item 1)} {text behind : Bytes} (h : IsList items text)
    (hb : Behind behind) (build : Build) :
    Descending.Sorts Prod.snd (items.map Item.entry) (parseRaw text behind) ∧
      Best build (items.map Item.entry) (getBestAcceptEncoding build (some (parseRaw text behind))) := by
  have hsorts : Descending.Sorts Prod.snd (items.map Item.entry) (parseRaw text behind) := by
    rw [parseRaw, run_list h hb.stops]
    simpa using Descending.Sorts.nil.foldl (items.map Item.entry)
  exact ⟨hsorts, best_of_sorts build hsorts⟩

set_option maxRecDepth 8000 in
/-- A list with white space in many places, behind it the end of its line. -/
theorem accept_list_three :
    Descending.Sorts Prod.snd [(Header.Encoding.Gzip, 500), (.Br, 1000), (.Unknown, 1000)]
        (parseRaw (lit "gzip;q=0.5 , br,\tx\t; q=1.00 ") (lit "\r\n")) ∧
      Best ⟨false, true, false⟩ [(Header.Encoding.Gzip, 500), (.Br, 1000), (.Unknown, 1000)]
        (getBestAcceptEncoding ⟨false, true, false⟩
          (some (parseRaw (lit "gzip;q=0.5 , br,\tx\t; q=1.00 ") (lit "\r\n")))) := by
  have half : QValue 1 (lit "0.5") 500 :=
    .fraction (lit "5") (by decide) (by decide) (by decide)
  have unit : QValue 1 (lit "1.00") 1000 := .unit 2 (by decide) (by decide)
  have ows : ∀ c ∈ lit " \t", is_http_space c = true := by decide
  exact accept_list
    (.cons ⟨lit "gzip", some ⟨[], [], lit "0.5", 500, by simp [Ows], by simp [Ows], half⟩, by decide, by decide⟩
      ⟨lit "br", none, by decide, by decide⟩ _ (lit " ") (lit " ") _
      (by unfold Ows; decide) (by unfold Ows; decide)
      (.cons _ ⟨lit "x", some ⟨lit "\t", lit " ", lit "1.00", 1000,
          by unfold Ows; decide, by unfold Ows; decide, unit⟩, by decide, by decide⟩ _ [] (lit "\t") _
        (by simp [Ows]) (by unfold Ows; decide)
        (.last _ (lit " ") (by unfold Ows; decide))))
    (.inr rfl) ⟨false, true, false⟩

set_option maxRecDepth 8000 in
/-- **A dot without digits is refused**, although the grammar of quality values has it: the
encodings of `gzip;q=1.` are none. -/
theorem parseRaw_dot :
    QValue 0 (lit "1.") 1000 ∧ parseRaw (lit "gzip;q=1.") [] = [] ∧
      ¬∀ (items : List (Item 0)) (text : Bytes), IsList items text →
        Descending.Sorts Prod.snd (items.map Item.entry) (parseRaw text []) := by
  have unit : QValue 0 (lit "1.") 1000 := .unit 0 (by decide) (by decide)
  have hnone : parseRaw (lit "gzip;q=1.") [] = [] := by decide
  refine ⟨unit, hnone, fun h => ?_⟩
  have hgzip := h _ _ (.last ⟨lit "gzip", some ⟨[], [], lit "1.", 1000, by simp [Ows], by simp [Ows], unit⟩,
    by decide, by decide⟩ [] (by simp [Ows]))
  have hlength : (parseRaw (lit "gzip;q=1.") []).length = 1 := hgzip.perm.length_eq
  rw [hnone] at hlength
  cases hlength

end AcceptEncoding

end Pistache.Http
