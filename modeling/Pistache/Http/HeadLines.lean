import Mathlib.Data.List.Infix
import Pistache.Http.HeadReplay

/-!
# The lines of a head

A text without a CRLF stands on one line.  `HeadersStep` makes a sequence of lines of the bytes
it is given, and takes one after the other into the message; what has been written as lines
that are `Clean` it reads as these lines.

Principal results:

* `OneLine.untilEol` — a text on one line is read up to the CRLF behind it.
* `HeadersStep.exists_lines` — whatever the bytes are, what the step leaves in the message is
  what some lines make of it.
* `HeadersStep.apply_lines` — clean lines are read as they have been written.
* `HeadersStep.lines_clean` — they are the lines of the text; no others are found.
-/

set_option autoImplicit false

namespace Pistache

open Replay Resumable

/-! ## Texts on one line -/

/-- There is no CRLF in the text. -/
def OneLine (text : Bytes) : Prop := ¬[CR, LF] <:+: text

instance (text : Bytes) : Decidable (OneLine text) := by unfold OneLine; infer_instance

theorem OneLine.inside {a b : Bytes} (h : OneLine b) (hab : a <:+: b) : OneLine a :=
  fun hin => h (hin.trans hab)

theorem OneLine.suffix {a b : Bytes} (h : OneLine b) (hab : a <:+ b) : OneLine a :=
  h.inside hab.isInfix

theorem OneLine.left {a b : Bytes} (h : OneLine (a ++ b)) : OneLine a :=
  h.inside (List.prefix_append a b).isInfix

theorem OneLine.right {a b : Bytes} (h : OneLine (a ++ b)) : OneLine b :=
  h.suffix (List.suffix_append a b)

theorem oneLine_iff {text : Bytes} : OneLine text ↔ ∀ a b, text = a ++ b → eol b = false := by
  constructor
  · rintro h a b rfl
    rw [Bool.eq_false_iff]
    intro hb
    obtain ⟨rest, rfl⟩ := eol_iff.mp hb
    exact h ⟨a, rest, by simp⟩
  · rintro h ⟨a, b, rfl⟩
    have := h a (CR :: LF :: b) (by simp)
    simp at this

theorem oneLine_of_not_mem {text : Bytes} (h : CR ∉ text) : OneLine text := by
  rintro ⟨a, b, rfl⟩
  exact h (by simp)

/-- A character that has no part in a CRLF cuts a line into two. -/
theorem oneLine_append_cons {a b : Bytes} {c : UInt8} (hcr : c ≠ CR) (hlf : c ≠ LF) :
    OneLine (a ++ c :: b) ↔ OneLine a ∧ OneLine b := by
  refine ⟨fun h => ⟨h.left, ?_⟩, ?_⟩
  · refine h.suffix ⟨a ++ [c], by simp⟩
  · rintro ⟨ha, hb⟩
    rw [oneLine_iff] at ha hb ⊢
    intro x y hxy
    rcases List.append_eq_append_iff.mp hxy with ⟨z, rfl, hy⟩ | ⟨z, rfl, hy⟩
    · cases z with
      | nil =>
        rw [List.nil_append] at hy
        subst hy
        rw [Bool.eq_false_iff]
        intro h
        obtain ⟨rest, hrest⟩ := eol_iff.mp h
        exact hcr (List.cons.inj hrest).1
      | cons d z =>
        obtain ⟨rfl, rfl⟩ := List.cons.inj hy
        exact hb z y rfl
    · have hz : eol z = false := ha x z rfl
      rw [Bool.eq_false_iff]
      intro h
      obtain ⟨rest, hrest⟩ := eol_iff.mp h
      rw [hy] at hrest
      match z, hrest, hz with
      | [], hrest, _ => exact hcr (List.cons.inj hrest).1
      | [d], hrest, _ => exact hlf (List.cons.inj (List.cons.inj hrest).2).1
      | d :: e :: z, hrest, hz =>
        obtain ⟨hd, hrest⟩ := List.cons.inj hrest
        obtain ⟨he, -⟩ := List.cons.inj hrest
        rw [hd, he] at hz
        simp at hz

/-- **A line is read up to its end.** -/
theorem OneLine.untilEol {text : Bytes} (h : OneLine text) (rest : Bytes) :
    untilEol (text ++ CR :: LF :: rest) = some (text, CR :: LF :: rest) := by
  refine Scan.scan_eq_some (eol_crlf rest) (by simp) fun a x b hab => ?_
  have hb : eol (x :: b) = false := oneLine_iff.mp h a (x :: b) hab
  rw [Bool.eq_false_iff]
  intro heol
  obtain ⟨rest', hrest⟩ := eol_iff.mp heol
  cases b with
  | nil =>
    -- the CR that ends the line would be the LF
    exact absurd (List.cons.inj (List.cons.inj hrest).2).1 (by decide)
  | cons y b =>
    obtain ⟨hx, hrest⟩ := List.cons.inj hrest
    obtain ⟨hy, -⟩ := List.cons.inj hrest
    rw [hx, hy] at hb
    simp at hb

/-- What is read up to the end of a line stands on one line. -/
theorem untilEol_oneLine {xs tok rest : Bytes} (h : untilEol xs = some (tok, rest)) :
    OneLine tok := by
  rw [oneLine_iff]
  rintro a b rfl
  cases b with
  | nil => rfl
  | cons x b =>
    have hfirst : eol (x :: b ++ rest) = false := Scan.scan_first h rfl
    rw [Bool.eq_false_iff]
    intro heol
    obtain ⟨rest', hrest⟩ := eol_iff.mp heol
    rw [hrest] at hfirst
    simp at hfirst

/-- There is a line to be read unless all stands on one. -/
theorem untilEol_eq_none {xs : Bytes} : untilEol xs = none ↔ OneLine xs := by
  rw [oneLine_iff]
  constructor
  · intro h a b hab
    cases b with
    | nil => rfl
    | cons x b => exact Scan.scan_none h a x b hab
  · intro h
    exact Scan.scan_eq_none fun a x b hab => h a (x :: b) hab

/-- A token in front of the first of the characters. -/
theorem match_until_token {chars : List UInt8} {tok : Bytes} {c : UInt8} (hc : c ∈ chars)
    (htok : ∀ x ∈ tok, x ∉ chars) (rest : Bytes) :
    match_until chars (tok ++ c :: rest) = some (tok, c :: rest) := by
  refine Scan.scan_eq_some ?_ (by simp) fun a x b hab => ?_
  · simpa [Scan.atHead] using hc
  · have hx : x ∉ chars := htok x (by rw [hab]; simp)
    simpa [Scan.atHead] using hx

/-- There is none of the characters in a token. -/
theorem match_until_clean {chars : List UInt8} {xs tok rest : Bytes}
    (h : match_until chars xs = some (tok, rest)) : ∀ x ∈ tok, x ∉ chars := by
  intro x hx
  obtain ⟨a, b, rfl⟩ := List.append_of_mem hx
  have hfirst := Scan.scan_first h (x := x) rfl
  simpa [Scan.atHead] using hfirst

/-- Without any of the characters nothing is found. -/
theorem match_until_none {chars : List UInt8} {xs : Bytes} (h : ∀ x ∈ xs, x ∉ chars) :
    match_until chars xs = none := by
  refine Scan.scan_eq_none fun a x b hab => ?_
  have hx : x ∉ chars := h x (by rw [hab]; simp)
  simpa [Scan.atHead] using hx

theorem match_until_eq_none {chars : List UInt8} :
    ∀ {xs : Bytes}, match_until chars xs = none → ∀ x ∈ xs, x ∉ chars
  | [], _ => by simp
  | y :: xs, h => by
    unfold match_until Scan.scan at h
    by_cases hy : y ∈ chars
    · simp [Scan.atHead, hy] at h
    · have hxs : match_until chars xs = none := by simpa [Scan.atHead, hy, match_until] using h
      intro x hx
      rcases List.mem_cons.mp hx with rfl | hx
      · exact hy
      · exact match_until_eq_none hxs x hx

/-! ## Lines of a head -/

namespace Http.HeadersStep

variable {H L : Type} (registry : Registry H)

/-- A line as it is written: `name: text`. -/
def lineText (line : Bytes × Bytes) : Bytes := line.1 ++ colon :: SP :: line.2 ++ [CR, LF]

/-- A line that does not break up. -/
structure Clean (line : Bytes × Bytes) : Prop where
  colon : colon ∉ line.1
  eol : eol line.1 = false
  oneLine : OneLine line.2

instance (line : Bytes × Bytes) : Decidable (Clean line) :=
  decidable_of_iff (HeadersStep.colon ∉ line.1 ∧ Pistache.eol line.1 = false ∧ OneLine line.2)
    ⟨fun h => ⟨h.1, h.2.1, h.2.2⟩, fun h => ⟨h.1, h.2, h.3⟩⟩

/-- What the step takes a line for: the spaces in front of the value are skipped. -/
def asRead (line : Bytes × Bytes) : Bytes × Bytes := (line.1, line.2.dropWhile (· = SP))

/-- A line that the step may have read. -/
structure IsLine (line : Bytes × Bytes) : Prop extends Clean line where
  space : line.2.head? ≠ some SP

theorem eol_name {name : Bytes} (h : eol name = false) (rest : Bytes) :
    eol (name ++ colon :: rest) = false := by
  match name, h with
  | [], _ => rw [Bool.eq_false_iff]; intro he; obtain ⟨r, hr⟩ := eol_iff.mp he; cases hr
  | [c], _ =>
    rw [Bool.eq_false_iff]
    intro he
    obtain ⟨r, hr⟩ := eol_iff.mp he
    exact absurd (List.cons.inj (List.cons.inj hr).2).1 (by decide)
  | c :: d :: name, h => simpa [eol] using h

theorem header_line {line : Bytes × Bytes} (h : Clean line) (rest : Bytes) :
    header (lineText line ++ rest) = some ((asRead line).1, (asRead line).2, rest) := by
  obtain ⟨name, text⟩ := line
  have htok : ∀ x ∈ name, x ∉ [colon] := fun x hx hin => by
    rw [List.mem_singleton] at hin
    exact h.colon (hin ▸ hx)
  have htext : lineText (name, text) ++ rest = name ++ colon :: (SP :: text ++ CR :: LF :: rest) := by
    simp [lineText]
  have hdrop : (SP :: text ++ CR :: LF :: rest).dropWhile (· = SP) =
      text.dropWhile (· = SP) ++ CR :: LF :: rest := by
    rw [List.cons_append, List.dropWhile_cons, if_pos (by simp), List.dropWhile_append]
    split
    · rename_i hall
      rw [List.isEmpty_iff.mp hall]
      rfl
    · rfl
  have hvalue : OneLine (text.dropWhile (· = SP)) := h.oneLine.suffix (List.dropWhile_suffix _)
  rw [htext, header, match_until_token (by simp) htok]
  simp only [List.drop_succ_cons, List.drop_zero, hdrop, hvalue.untilEol rest]
  rfl

theorem header_isLine {xs name value rest : Bytes} (heol : Pistache.eol xs = false)
    (h : header xs = some (name, value, rest)) : IsLine (name, value) := by
  obtain ⟨spaces, hxs⟩ := header_some h
  unfold header at h
  split at h
  · cases h
  · rename_i n c hm
    split at h
    · cases h
    · rename_i v d hv
      simp only [Option.some.injEq, Prod.mk.injEq] at h
      obtain ⟨rfl, rfl, rfl⟩ := h
      refine ⟨⟨fun hin => ?_, ?_, untilEol_oneLine hv⟩, fun hspace => ?_⟩
      · exact match_until_clean hm _ hin (by simp)
      · match n, hxs with
        | [], _ => rfl
        | [x], _ => simp [Pistache.eol]
        | x :: y :: n, hxs =>
          rw [hxs] at heol
          simpa [Pistache.eol] using heol
      · obtain ⟨hsplit, -⟩ := untilEol_some hv
        cases v with
        | nil => cases hspace
        | cons x v =>
          obtain rfl : x = SP := by simpa using hspace
          have hnot := List.head?_dropWhile_not (fun x => decide (x = SP)) (c.drop 1)
          rw [hsplit] at hnot
          simp at hnot

/-- The step runs through lines. -/
theorem exists_lines (m : Derived H L) (xs : Bytes) : ∃ ls : List (Bytes × Bytes),
    (∀ l ∈ ls, IsLine l) ∧
    (apply registry m xs).state =
      { m with toMessage := applyAll (update registry) ls m.toMessage } ∧
    ((apply registry m xs).result = .Next → ∀ l ∈ ls, thrown registry l = none) := by
  have hrun := Loop.run_induction (body_shrinks registry (L := L))
    (fun message cursor => ⟨.Again, message, cursor⟩)
    (fun m' _ => ∃ ls : List (Bytes × Bytes), (∀ l ∈ ls, IsLine l) ∧
      m' = { m with toMessage := applyAll (update registry) ls m.toMessage } ∧
      ∀ l ∈ ls, thrown registry l = none)
    (fun o => ∃ ls : List (Bytes × Bytes), (∀ l ∈ ls, IsLine l) ∧
      o.state = { m with toMessage := applyAll (update registry) ls m.toMessage } ∧
      (o.result = .Next → ∀ l ∈ ls, thrown registry l = none))
    ?_ ?_ m xs ⟨[], by simp, rfl, by simp⟩
  · obtain ⟨ls, hls, hstate, hnext⟩ := hrun
    refine ⟨ls, hls, ?_, ?_⟩
    · rw [apply, revert_state, hstate]
    · rw [apply, revert_result]
      exact hnext
  · rintro m' ys o ⟨ls, hls, rfl, hthrown⟩ ho
    unfold body at ho
    split at ho
    · cases ho
      exact ⟨ls, hls, rfl, fun _ => hthrown⟩
    · rename_i heol
      split at ho
      · cases ho
        exact ⟨ls, hls, rfl, fun h => by cases h⟩
      · rename_i name value rest hh
        rw [addHeader_eq] at ho
        split at ho
        · cases ho
        · rename_i m'' e hm
          cases ho
          simp only [Prod.mk.injEq] at hm
          refine ⟨ls ++ [(name, value)], ?_, ?_, fun h => by cases h⟩
          · intro l hl
            rcases List.mem_append.mp hl with hl | hl
            · exact hls l hl
            · rw [List.mem_singleton] at hl
              subst hl
              exact header_isLine (by simpa using heol) hh
          · rw [applyAll_append, ← hm.1]
            rfl
  · rintro m' ys m'' ys' ⟨ls, hls, rfl, hthrown⟩ ho
    unfold body at ho
    split at ho
    · cases ho
    · rename_i heol
      split at ho
      · cases ho
      · rename_i name value rest hh
        rw [addHeader_eq] at ho
        split at ho
        · rename_i m₁ hm
          cases ho
          simp only [Prod.mk.injEq] at hm
          refine ⟨ls ++ [(name, value)], ?_, ?_, ?_⟩
          · intro l hl
            rcases List.mem_append.mp hl with hl | hl
            · exact hls l hl
            · rw [List.mem_singleton] at hl
              subst hl
              exact header_isLine (by simpa using heol) hh
          · rw [applyAll_append, ← hm.1]
            rfl
          · intro l hl
            rcases List.mem_append.mp hl with hl | hl
            · exact hthrown l hl
            · rw [List.mem_singleton] at hl
              subst hl
              exact hm.2
        · cases ho

/-! ### Clean lines -/

variable {registry} {m : Derived H L} {line : Bytes × Bytes} {ls : List (Bytes × Bytes)}

/-- `HeadersStep::apply` without the way back of its cursor. -/
def readLines (registry : Registry H) : Step (Derived H L) :=
  Loop.run (body registry) fun message cursor => ⟨.Again, message, cursor⟩

/-- One line in front of others. -/
theorem readLines_line (h : Clean line) (m : Derived H L) (rest : Bytes) :
    readLines registry m (lineText line ++ rest) =
      match thrown registry (asRead line) with
      | none =>
        readLines registry { m with toMessage := update registry (asRead line) m.toMessage } rest
      | some e =>
        ⟨.thrown e, { m with toMessage := update registry (asRead line) m.toMessage },
          lineText line ++ rest⟩ := by
  have heol : Pistache.eol (lineText line ++ rest) = false := by
    have := eol_name h.eol (SP :: line.2 ++ [CR, LF] ++ rest)
    simpa [lineText] using this
  rw [readLines, Loop.run_eq (body_shrinks registry), body, heol, header_line h]
  simp only [addHeader_eq, Bool.false_eq_true, if_false]
  cases thrown registry (asRead line) with
  | none => rfl
  | some e => rfl

/-- The blank line ends the head. -/
theorem readLines_blank (m : Derived H L) (rest : Bytes) :
    readLines registry m (CR :: LF :: rest) = ⟨.Next, m, rest⟩ := by
  rw [readLines, Loop.run_eq (body_shrinks registry)]
  simp [body]

theorem readLines_clean (rest : Bytes) : ∀ {ls : List (Bytes × Bytes)} (m : Derived H L),
    (∀ l ∈ ls, Clean l) → (∀ l ∈ ls, thrown registry (asRead l) = none) →
      readLines registry m (ls.flatMap lineText ++ rest) =
        readLines registry
          { m with toMessage := applyAll (update registry) (ls.map asRead) m.toMessage } rest
  | [], m, _, _ => rfl
  | l :: ls, m, hclean, hthrown => by
    rw [List.flatMap_cons, List.append_assoc, readLines_line (hclean l List.mem_cons_self),
      hthrown l List.mem_cons_self]
    exact readLines_clean rest _ (fun l' hl => hclean l' (List.mem_cons_of_mem l hl))
      fun l' hl => hthrown l' (List.mem_cons_of_mem l hl)

/-- A line that throws ends the reading. -/
theorem readLines_thrown (rest : Bytes) : ∀ {ls : List (Bytes × Bytes)} (m : Derived H L),
    (∀ l ∈ ls, Clean l) →
      (readLines registry m (ls.flatMap lineText ++ rest)).result = .Next →
        ∀ l ∈ ls, thrown registry (asRead l) = none
  | [], _, _, _ => by simp
  | l :: ls, m, hclean, hnext => by
    rw [List.flatMap_cons, List.append_assoc, readLines_line (hclean l List.mem_cons_self)] at hnext
    cases ht : thrown registry (asRead l) with
    | some e => simp [ht] at hnext
    | none =>
      simp only [ht] at hnext
      intro l' hl'
      rcases List.mem_cons.mp hl' with rfl | hl'
      · exact ht
      · exact readLines_thrown rest _ (fun l'' hl => hclean l'' (List.mem_cons_of_mem l hl)) hnext
          l' hl'

/-- **Clean lines are read as they have been written.** -/
theorem apply_lines (m : Derived H L) (hclean : ∀ l ∈ ls, Clean l)
    (hthrown : ∀ l ∈ ls, thrown registry (asRead l) = none) (rest : Bytes) :
    apply registry m (ls.flatMap lineText ++ CR :: LF :: rest) =
      ⟨.Next, { m with toMessage := applyAll (update registry) (ls.map asRead) m.toMessage },
        rest⟩ := by
  have hread := readLines_clean (CR :: LF :: rest) m hclean hthrown
  rw [readLines_blank] at hread
  have hnext : (readLines registry m (ls.flatMap lineText ++ CR :: LF :: rest)).result = .Next := by
    rw [hread]
  exact (revert_next State.Next hnext).trans hread

theorem apply_lines_next (hclean : ∀ l ∈ ls, Clean l) {rest : Bytes}
    (hnext : (apply registry m (ls.flatMap lineText ++ CR :: LF :: rest)).result = .Next) :
    ∀ l ∈ ls, thrown registry (asRead l) = none := by
  rw [apply, revert_result] at hnext
  exact readLines_thrown _ m hclean hnext

/-! ### The lines of a text -/

def linesBody : Loop.Body (List (Bytes × Bytes)) UInt8 (List (Bytes × Bytes)) := fun ls cursor =>
  if Pistache.eol cursor then .inl ls
  else
    match header cursor with
    | none => .inl ls
    | some (name, value, rest) => .inr (ls ++ [(name, value)], rest)

/-- The names and values in front of the blank line of a text, whatever is made of them. -/
def lines (cursor : Bytes) : List (Bytes × Bytes) := Loop.run linesBody (fun ls _ => ls) [] cursor

theorem linesBody_shrinks : Loop.Shrinks linesBody := by
  intro ls xs ls' xs' h
  unfold linesBody at h
  split at h
  · cases h
  · split at h
    · cases h
    · rename_i name value rest hh
      simp only [Sum.inr.injEq, Prod.mk.injEq] at h
      obtain ⟨-, rfl⟩ := h
      obtain ⟨spaces, hxs⟩ := header_some hh
      have := congrArg List.length hxs
      simp only [List.length_append, List.length_cons] at this
      omega

theorem lines_isLine (cursor : Bytes) : ∀ l ∈ lines cursor, IsLine l := by
  refine Loop.run_induction linesBody_shrinks (fun ls _ => ls) (fun ls _ => ∀ l ∈ ls, IsLine l)
    (fun ls => ∀ l ∈ ls, IsLine l) ?_ ?_ [] cursor (fun l hl => nomatch hl)
  · intro ls xs r hls hr
    unfold linesBody at hr
    repeat' split at hr
    all_goals
      cases hr
    · exact hls
    · exact hls
  · intro ls xs ls' xs' hls hr
    unfold linesBody at hr
    split at hr
    · cases hr
    · rename_i heol
      split at hr
      · cases hr
      · rename_i name value rest hh
        cases hr
        intro l hl
        rcases List.mem_append.mp hl with hl | hl
        · exact hls l hl
        · rw [List.mem_singleton] at hl
          subst hl
          exact header_isLine (by simpa using heol) hh

/-- A head that is read is read from the lines of its text. -/
theorem readLines_lines : ∀ (n : Nat) (xs : Bytes) (m : Derived H L) (acc : List (Bytes × Bytes)),
    xs.length < n → (readLines registry m xs).result = .Next →
      ∃ ls, Loop.run linesBody (fun ls _ => ls) acc xs = acc ++ ls ∧
        (∀ l ∈ ls, thrown registry l = none) ∧
        (readLines registry m xs).state =
          { m with toMessage := applyAll (update registry) ls m.toMessage }
  | 0, _, _, _, hn, _ => absurd hn (Nat.not_lt_zero _)
  | n + 1, xs, m, acc, hn, hnext => by
    rw [readLines, Loop.run_eq (body_shrinks registry)] at hnext ⊢
    rw [Loop.run_eq linesBody_shrinks]
    by_cases heol : Pistache.eol xs = true
    · exact ⟨[], by simp [linesBody, heol], by simp, by simp [body, heol]⟩
    cases hh : header xs with
    | none => simp [body, heol, hh] at hnext
    | some line =>
      obtain ⟨name, value, rest⟩ := line
      cases ht : thrown registry (name, value) with
      | some e => simp [body, heol, hh, addHeader_eq, ht] at hnext
      | none =>
        simp only [body, heol, hh, addHeader_eq, ht, if_false, Bool.false_eq_true] at hnext ⊢
        have hlt : rest.length < n := by
          obtain ⟨spaces, hxs⟩ := header_some hh
          have hlen := congrArg List.length hxs
          simp only [List.length_append, List.length_cons] at hlen
          omega
        obtain ⟨ls, hlines, hthrown, hstate⟩ := readLines_lines n rest
          { m with toMessage := update registry (name, value) m.toMessage } (acc ++ [(name, value)])
          hlt hnext
        refine ⟨(name, value) :: ls, ?_, ?_, hstate⟩
        · simpa [linesBody, heol, hh] using hlines
        · intro l hl
          rcases List.mem_cons.mp hl with rfl | hl
          · exact ht
          · exact hthrown l hl

/-- **What the step leaves of a head that it accepts** is what the lines of the text make of the
message. -/
theorem apply_of_next {xs : Bytes} (hnext : (apply registry m xs).result = .Next) :
    (apply registry m xs).state =
        { m with toMessage := applyAll (update registry) (lines xs) m.toMessage } ∧
      ∀ l ∈ lines xs, thrown registry l = none := by
  rw [apply, revert_result] at hnext
  obtain ⟨ls, hlines, hthrown, hstate⟩ := readLines_lines _ xs m [] (Nat.lt_succ_self _) hnext
  have hls : lines xs = ls := hlines
  rw [apply, revert_state, hls]
  exact ⟨hstate, hthrown⟩

/-- Clean lines are the lines of the text. -/
theorem lines_clean (hclean : ∀ l ∈ ls, Clean l) (rest : Bytes) :
    lines (ls.flatMap lineText ++ CR :: LF :: rest) = ls.map asRead := by
  have hrun : ∀ (ls acc : List (Bytes × Bytes)), (∀ l ∈ ls, Clean l) →
      Loop.run linesBody (fun ls _ => ls) acc (ls.flatMap lineText ++ CR :: LF :: rest) =
        acc ++ ls.map asRead := by
    intro ls
    induction ls with
    | nil =>
      intro acc _
      rw [Loop.run_eq linesBody_shrinks]
      simp [linesBody]
    | cons l ls ih =>
      intro acc hclean
      have hl := hclean l List.mem_cons_self
      have heol : Pistache.eol (lineText l ++ (ls.flatMap lineText ++ CR :: LF :: rest)) = false := by
        have := eol_name hl.eol
          (SP :: l.2 ++ [CR, LF] ++ (ls.flatMap lineText ++ CR :: LF :: rest))
        simpa [lineText] using this
      rw [List.flatMap_cons, List.append_assoc, Loop.run_eq linesBody_shrinks, linesBody, heol,
        header_line hl]
      simp only [Bool.false_eq_true, if_false]
      rw [ih _ fun l' hl' => hclean l' (List.mem_cons_of_mem l hl'), List.map_cons, List.append_assoc]
      rfl
  exact hrun ls [] hclean

/-- A line that is read as it has been written is clean. -/
theorem clean_of_asRead (h : Clean (asRead line)) : Clean line := by
  refine ⟨h.colon, h.eol, ?_⟩
  obtain ⟨name, text⟩ := line
  have hline : OneLine (text.dropWhile (· = SP)) := h.oneLine
  have hsplit := List.takeWhile_append_dropWhile (p := fun c => decide (c = SP)) (l := text)
  have hspaces : ∀ spaces : Bytes, (∀ c ∈ spaces, c = SP) → OneLine (spaces ++ text.dropWhile (· = SP)) := by
    intro spaces
    induction spaces with
    | nil => exact fun _ => hline
    | cons c spaces ih =>
      intro hall
      obtain rfl := hall c List.mem_cons_self
      exact (oneLine_append_cons (a := []) (by decide) (by decide)).mpr
        ⟨by decide, ih fun d hd => hall d (List.mem_cons_of_mem _ hd)⟩
  have := hspaces (text.takeWhile (· = SP)) fun c hc => by simpa using List.mem_takeWhile_imp hc
  rwa [hsplit] at this

/-! ### What lines leave in a message -/

theorem applyAll_update_headers : ∀ (ls : List (Bytes × Bytes)) (m : Message H),
    (applyAll (update registry) ls m).headers_.headers =
      applyAll (fun e l => insertNew e.1 e.2 l) (ls.filterMap (typedEntry registry))
        m.headers_.headers
  | [], _ => rfl
  | l :: ls, m => by
    rw [applyAll_cons, applyAll_update_headers ls, List.filterMap_cons]
    cases h : typedEntry registry l with
    | none => simp [update, h]
    | some e => simp [update, h]

theorem applyAll_update_rawHeaders : ∀ (ls : List (Bytes × Bytes)) (m : Message H),
    (applyAll (update registry) ls m).headers_.rawHeaders =
      applyAll (fun e l => insertNew e.1 e.2 l) (ls.filterMap (rawEntry registry))
        m.headers_.rawHeaders
  | [], _ => rfl
  | l :: ls, m => by
    rw [applyAll_cons, applyAll_update_rawHeaders ls, List.filterMap_cons]
    cases h : rawEntry registry l with
    | none => simp [update, h]
    | some e => simp [update, h]

theorem applyAll_update_cookies : ∀ (ls : List (Bytes × Bytes)) (m : Message H),
    (applyAll (update registry) ls m).cookies_ =
      ls.foldl (fun jar l => (cookies registry l.1 l.2 jar).1) m.cookies_
  | [], _ => rfl
  | l :: ls, m => by
    rw [applyAll_cons, applyAll_update_cookies ls]
    rfl

/-- The rest of the message stays as it is. -/
theorem applyAll_update_rest : ∀ (ls : List (Bytes × Bytes)) (m : Message H),
    (applyAll (update registry) ls m).code_ = m.code_ ∧
      (applyAll (update registry) ls m).body_ = m.body_
  | [], _ => ⟨rfl, rfl⟩
  | l :: ls, m => applyAll_update_rest ls (update registry l m)

/-- A typed header comes from a line of its name. -/
theorem typedEntry_some {e : Bytes × TypedHeader H} (h : typedEntry registry line = some e) :
    e.1 = line.1.map tolower ∧ typed registry line.1 line.2 = some (.ok e.2) := by
  unfold typedEntry at h
  split at h
  · split at h
    · cases h
      exact ⟨rfl, by assumption⟩
    · cases h
  · cases h

theorem typedEntry_of_typed {header : TypedHeader H} (h : typed registry line.1 line.2 = some (.ok header)) :
    typedEntry registry line = some (line.1.map tolower, header) := by
  have hcookie : isCookieHeader line.1 = false := by
    unfold typed at h
    split at h
    · cases h
    · rename_i hc
      simpa using hc
  have hcookies : (cookies registry line.1 line.2 []).2 = none := by
    simp only [isCookieHeader, decide_eq_false_iff_not, not_or] at hcookie
    simp [cookies, hcookie.1, hcookie.2]
  simp [typedEntry, hcookies, h]

/-- Whether a line gives a typed header at all is a matter of its name. -/
theorem typed_none {name name' value value' : Bytes} (hname : name.map tolower = name'.map tolower)
    (h : typed registry name value = none) : typed registry name' value' = none := by
  have hcookie : isCookieHeader name = isCookieHeader name' := by
    simp [isCookieHeader, LowercaseEqualStatic, hname]
  unfold typed at h ⊢
  rw [hcookie] at h
  split at h
  · rename_i hc
    rw [if_pos hc]
  · rename_i hc
    rw [if_neg hc]
    unfold Registry.parse at h ⊢
    rw [hname] at h
    dsimp only at h ⊢
    split at h
    · cases h
    · rename_i h₁
      rw [if_neg h₁]
      split at h
      · cases h
      · rename_i h₂
        rw [if_neg h₂]
        split at h
        · cases h
        · rename_i h₃
          rw [if_neg h₃]
          rw [Option.map_eq_none_iff] at h ⊢
          exact h

theorem thrown_of_typed {header : TypedHeader H} (h : typed registry line.1 line.2 = some (.ok header)) :
    thrown registry line = none := by
  have hentry := typedEntry_of_typed h
  unfold typedEntry at hentry
  split at hentry
  · rename_i hc
    simp [thrown, hc, h]
  · cases hentry

/-! ### The classes that frame a body -/

/-- A line of another name leaves the jar alone. -/
theorem cookies_other {name : Bytes} (h : isCookieHeader name = false) (value : Bytes)
    (jar : CookieJar) : cookies registry name value jar = (jar, none) := by
  simp only [isCookieHeader, decide_eq_false_iff_not, not_or] at h
  simp [cookies, h.1, h.2]

theorem not_cookie_of_typed {name value : Bytes} {result : Except Exn (TypedHeader H)}
    (h : typed registry name value = some result) : isCookieHeader name = false := by
  unfold typed at h
  split at h
  · cases h
  · rename_i hc
    simpa using hc

/-- A line of the name of `ContentLength` is read by that class. -/
theorem typed_length {name : Bytes} (hname : name.map tolower = lit "content-length")
    (value : Bytes) :
    typed registry name value = some ((Header.ContentLength.parse value).map .ContentLength) := by
  have hne : name.map tolower ≠ lit "cookie" ∧ name.map tolower ≠ lit "set-cookie" := by
    rw [hname]
    decide
  have hcookie : isCookieHeader name = false := by
    simp [isCookieHeader, LowercaseEqualStatic, hne.1, hne.2]
  unfold typed
  rw [hcookie]
  simp [Registry.parse, hname]

/-- A line of the name of `TransferEncoding` is read by that class, which takes every value. -/
theorem typed_encoding {name : Bytes} (hname : name.map tolower = lit "transfer-encoding")
    (value : Bytes) :
    typed registry name value =
      some (.ok (.TransferEncoding (Header.encodingFromString value))) := by
  have hne : name.map tolower ≠ lit "cookie" ∧ name.map tolower ≠ lit "set-cookie" := by
    rw [hname]
    decide
  have hcookie : isCookieHeader name = false := by
    simp [isCookieHeader, LowercaseEqualStatic, hne.1, hne.2]
  have hlength : lit "transfer-encoding" ≠ lit "content-length" := by decide
  unfold typed
  rw [hcookie]
  simp only [Registry.parse, hname, hlength, if_false, if_true, Bool.false_eq_true]

/-- A header under the name of `ContentLength` is one. -/
theorem contentLength_of_typed {header : TypedHeader H} {name value : Bytes}
    (hname : name.map tolower = lit "content-length")
    (h : typed registry name value = some (.ok header)) : ∃ n, header = .ContentLength n := by
  rw [typed_length hname, Option.some.injEq] at h
  cases hc : Header.ContentLength.parse value with
  | error e => simp [hc, Except.map] at h
  | ok n =>
    simp only [hc, Except.map, Except.ok.injEq] at h
    exact ⟨n, h.symm⟩

/-- A line of this name that is taken gives the length that its value is read as. -/
theorem typed_contentLength (hname : line.1.map tolower = lit "content-length")
    (h : thrown registry line = none) :
    ∃ n, Header.ContentLength.parse line.2 = .ok n ∧
      typed registry line.1 line.2 = some (.ok (.ContentLength n)) := by
  have htyped : typed registry line.1 line.2 =
      some ((Header.ContentLength.parse line.2).map .ContentLength) := typed_length hname line.2
  cases hparse : Header.ContentLength.parse line.2 with
  | ok n => exact ⟨n, rfl, by rw [htyped, hparse]; rfl⟩
  | error e =>
    exfalso
    simp [thrown, cookies_other (not_cookie_of_typed htyped), htyped, hparse, Except.map] at h

end Http.HeadersStep

end Pistache
