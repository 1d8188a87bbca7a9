import Pistache.Http.AcceptEncoding

/-!
# The grammar of a quality value

`strToQvalue` takes the characters of a text one by one, up to six, and stops at the first that
is no digit and no dot.  A dot is refused in a wrong place, but nothing asks for one: a third
character counts as hundreds whether the second is a dot or a digit.

Principal results:

* `Header.qvalue_of_accepted` — a text that is taken whole, with a dot for its second character,
  is a quality value.
* `Header.strToQvalue_grammar` — the quality values with a digit behind the dot are the texts that
  are taken whole.
-/

set_option autoImplicit false

namespace Pistache.Http.Header

open AcceptEncoding (QValue isdigit_bounds thousandths qint_fraction
  strToQvalue_qvalue)

/-! ## What the loop has seen -/

/-- A text that the loop has gone through holds digits, and a dot at index 1 at most. -/
theorem qvalueLen_whole : ∀ {passes len : Nat} {str : Bytes},
    qvalueLen passes len str = some (len + str.length) →
      ∀ i c, str[i]? = some c → isdigit c = true ∨ c = dot ∧ len + i = 1
  | _, _, [], _, i, c, hc => by simp at hc
  | 0, len, d :: str, h, _, _, _ => by
    simp only [qvalueLen, List.length_cons, Option.some.injEq] at h
    omega
  | passes + 1, len, d :: str, h, i, c, hc => by
    rw [qvalueLen, List.headD_cons, List.drop_succ_cons, List.drop_zero, List.length_cons] at h
    split at h
    · cases h
    · rename_i hdot
      split at h
      · have hlen : len = len + (str.length + 1) := Option.some.inj h
        omega
      · rename_i hchar
        have hrest : qvalueLen passes (len + 1) str = some (len + 1 + str.length) := by
          rw [h]
          congr 1
          omega
        cases i with
        | zero =>
          rw [List.getElem?_cons_zero, Option.some.injEq] at hc
          subst hc
          by_cases hd : d = dot
          · have hone : ¬len ≠ 1 := fun hne => hdot ⟨hd, hne⟩
            exact .inr ⟨hd, by omega⟩
          · refine .inl ?_
            cases hdigit : isdigit d with
            | true => rfl
            | false => exact absurd ⟨hd, hdigit⟩ hchar
        | succ i =>
          rw [List.getElem?_cons_succ] at hc
          have ih := qvalueLen_whole hrest i c hc
          rwa [show len + 1 + i = len + (i + 1) by omega] at ih

/-- What the guards of `strToQvalue` have let through. -/
structure Accepted (str : Bytes) (n len : Nat) : Prop where
  length : qvalueLen 6 0 str = some len
  size : len = 1 ∨ len = 3 ∨ len = 4 ∨ len = 5
  first : str.getD 0 0 = 48 ∨ str.getD 0 0 = 49
  value : n = qint str len
  bound : n ≤ 1000

theorem accepted_of_eq {str : Bytes} {n len : Nat} (h : strToQvalue str = some (n, len)) :
    Accepted str n len := by
  unfold strToQvalue at h
  cases hlen : qvalueLen 6 0 str with
  | none =>
    rw [hlen] at h
    cases h
  | some m =>
    rw [hlen] at h
    dsimp only at h
    split at h
    · cases h
    · rename_i hsize
      split at h
      · cases h
      · rename_i hfirst
        split at h
        · cases h
        · rename_i hbound
          simp only [Option.some.injEq, Prod.mk.injEq] at h
          obtain ⟨rfl, rfl⟩ := h
          refine ⟨hlen, by omega, ?_, rfl, by omega⟩
          by_cases hzero : str.getD 0 0 = 48
          · exact .inl hzero
          · exact .inr (Classical.byContradiction fun hone => hfirst ⟨hzero, hone⟩)

/-! ## Back to the grammar -/

/-- No thousandths: only zeros stand behind the dot. -/
theorem zeros_of_thousandths {ds : Bytes} (hds : ∀ c ∈ ds, isdigit c = true)
    (hthree : ds.length ≤ 3) (h : thousandths ds = 0) : ds = List.replicate ds.length 48 := by
  refine List.eq_replicate_iff.mpr ⟨rfl, ?_⟩
  have hbounds : ∀ c ∈ ds, 48 ≤ c.toNat ∧ c.toNat ≤ 57 := fun c hc => isdigit_bounds (hds c hc)
  have heq : ∀ c : UInt8, 48 ≤ c.toNat → c.toNat - 48 = 0 → c = 48 := by
    intro c hlow hzero
    have hnat : c.toNat = (48 : UInt8).toNat := by
      show c.toNat = 48
      omega
    exact UInt8.toNat_inj.mp hnat
  intro c hc
  refine heq c (hbounds c hc).1 ?_
  rcases ds with _ | ⟨x, _ | ⟨y, _ | ⟨z, _ | ⟨w, ds⟩⟩⟩⟩
  · cases hc
  · simp only [thousandths, List.getD_cons_zero] at h
    simp only [List.mem_singleton] at hc
    subst hc
    omega
  · simp only [thousandths, List.getD_cons_zero, List.getD_cons_succ] at h
    simp only [List.mem_cons, List.not_mem_nil, or_false] at hc
    rcases hc with rfl | rfl <;> omega
  · simp only [thousandths, List.getD_cons_zero, List.getD_cons_succ] at h
    simp only [List.mem_cons, List.not_mem_nil, or_false] at hc
    rcases hc with rfl | rfl | rfl <;> omega
  · simp only [List.length_cons] at hthree
    omega

/-- The first character and the digits behind the second make a quality value. -/
theorem qvalue_of_fraction {a : UInt8} (ha : a = 48 ∨ a = 49) {ds : Bytes} (hne : ds ≠ [])
    (hds : ∀ c ∈ ds, isdigit c = true) (hthree : ds.length ≤ 3)
    (hbound : (a.toNat - 48) * 1000 + thousandths ds ≤ 1000) :
    QValue 1 (a :: dot :: ds) ((a.toNat - 48) * 1000 + thousandths ds) := by
  have hleast : 1 ≤ ds.length := List.length_pos_iff.mpr hne
  rcases ha with rfl | rfl
  · have hsum : ((48 : UInt8).toNat - 48) * 1000 + thousandths ds = thousandths ds := by
      show 0 * 1000 + thousandths ds = thousandths ds
      omega
    rw [hsum]
    exact .fraction ds hds hleast hthree
  · have hone : ((49 : UInt8).toNat - 48) * 1000 = 1000 := rfl
    rw [hone] at hbound ⊢
    have hnone : thousandths ds = 0 := by omega
    rw [hnone, zeros_of_thousandths hds hthree hnone]
    exact .unit ds.length hleast hthree

/-- The text is a quality value but for a digit in the place of the dot. -/
def DigitForDot (text : Bytes) : Prop :=
  ∃ (a c : UInt8) (ds : Bytes) (n : Nat), text = a :: c :: ds ∧ isdigit c = true ∧
    QValue 1 (a :: dot :: ds) n

/-- **A text that is taken whole** is a quality value, or one with a digit for its dot. -/
theorem qvalue_of_accepted {text : Bytes} {n : Nat}
    (h : strToQvalue text = some (n, text.length)) : QValue 1 text n ∨ DigitForDot text := by
  obtain ⟨hlen, hsize, hfirst, hvalue, hbound⟩ := accepted_of_eq h
  have hchars := qvalueLen_whole (hlen.trans (by rw [Nat.zero_add]))
  rcases text with _ | ⟨a, _ | ⟨b, ds⟩⟩
  · simp at hsize
  · rw [List.getD_cons_zero] at hfirst
    rcases hfirst with rfl | rfl
    · have hn : n = 0 := hvalue
      exact .inl (hn ▸ .zero)
    · have hn : n = 1000 := hvalue
      exact .inl (hn ▸ .one)
  · rw [List.getD_cons_zero] at hfirst
    have hlength : (a :: b :: ds).length = 2 + ds.length := by
      rw [List.length_cons, List.length_cons]
      omega
    rw [hlength] at hsize hvalue
    have hne : ds ≠ [] := by
      rintro rfl
      rw [List.length_nil] at hsize
      omega
    have ha : isdigit a = true := by
      rcases hfirst with rfl | rfl <;> decide
    have hds : ∀ c ∈ ds, isdigit c = true := by
      intro c hc
      obtain ⟨i, hi⟩ := List.mem_iff_getElem?.mp hc
      rcases hchars (i + 2) c (by simpa using hi) with hdigit | ⟨-, hone⟩
      · exact hdigit
      · omega
    rw [qint_fraction ha hne hds (by omega)] at hvalue
    have hq : QValue 1 (a :: dot :: ds) n := by
      rw [hvalue] at hbound ⊢
      exact qvalue_of_fraction hfirst hne hds (by omega) hbound
    rcases hchars 1 b (by simp) with hdigit | ⟨rfl, -⟩
    · exact .inr ⟨a, b, ds, n, rfl, hdigit, hq⟩
    · exact .inl hq

/-! ## The reader and the grammar -/

/-- **The reader goes by the grammar** whose dot has `least` digits behind it: it takes a quality
value whole and gives its thousandths, and of another text it takes a first part at most. -/
structure ByGrammar (least : Nat) (text : Bytes) : Prop where
  accepted : ∀ n, QValue least text n → strToQvalue text = some (n, text.length)
  refused : (¬∃ n, QValue least text n) →
    ∀ n len, strToQvalue text = some (n, len) → len < text.length

/-- **Quality values.** -/
theorem strToQvalue_grammar {text : Bytes} (h : ¬DigitForDot text) : ByGrammar 1 text := by
  constructor
  · intro n hq
    exact strToQvalue_qvalue hq
  · intro hnone n len hread
    have hle : len ≤ 0 + text.length := qvalueLen_le (accepted_of_eq hread).length
    have hne : len ≠ text.length := by
      rintro rfl
      rcases qvalue_of_accepted hread with hq | hdigit
      · exact hnone ⟨n, hq⟩
      · exact h hdigit
    omega

set_option maxRecDepth 8000 in
/-- The text `0.25`, and the text `0.2x`, of which a first part is taken. -/
theorem strToQvalue_quarter :
    strToQvalue (lit "0.25") = some (250, 4) ∧
      ∀ n len, strToQvalue (lit "0.2x") = some (n, len) → len < 4 := by
  have hdot : ∀ ds : Bytes, ¬DigitForDot (48 :: dot :: ds) := by
    rintro ds ⟨a, c, ds', n, heq, hdigit, -⟩
    simp only [List.cons.injEq] at heq
    rw [← heq.2.1] at hdigit
    exact absurd hdigit (by decide)
  have hquarter : QValue 1 (lit "0.25") 250 :=
    .fraction [50, 53] (by decide) (by decide) (by decide)
  refine ⟨(strToQvalue_grammar (hdot (lit "25"))).accepted 250 hquarter, ?_⟩
  refine (strToQvalue_grammar (hdot (lit "2x"))).refused ?_
  rintro ⟨n, hq⟩
  have hchar := hq.chars 120 (by decide)
  exact absurd hchar (by decide)

/-- `1.` is in the grammar and is not taken. -/
theorem strToQvalue_one_dot : QValue 0 (lit "1.") 1000 ∧ ¬ByGrammar 0 (lit "1.") := by
  have hq : QValue 0 (lit "1.") 1000 := .unit 0 (by omega) (by omega)
  refine ⟨hq, fun h => ?_⟩
  have hread := h.accepted 1000 hq
  exact absurd hread (by decide)

end Pistache.Http.Header
