import Mathlib.Data.List.DropRight
import Pistache.Http.HeadLines

/-!
# The grammar of a header block

`HeadersStep` reads a name up to the next colon, wherever it stands, and a value up to the next
CRLF.  So a line without a colon is joined with the next one, blanks belong to a name, and of the
blanks around a value only the spaces in front of it are dropped.  The classes of the headers and
the cookies may throw.

Principal results:

* `HeadersStep.apply_next_iff`, `HeadersStep.apply_thrown_iff` — what the step reads as lines.
* `HeadersStep.headerBlock_iff` — the inputs on which it goes by the grammar of header lines.
-/

set_option autoImplicit false

namespace Pistache

open Replay Resumable

theorem OneLine.cons {c : UInt8} {text : Bytes} (hcr : c ≠ CR) (hlf : c ≠ LF) (h : OneLine text) :
    OneLine (c :: text) :=
  (oneLine_append_cons (a := []) hcr hlf).mpr ⟨by decide, h⟩

namespace Http.HeadersStep

variable {H L : Type} {registry : Registry H} {m : Derived H L} {ls : List (Bytes × Bytes)}
  {xs : Bytes}

/-! ## The lines that the step reads -/

/-- A name and what stands between the colon and the CRLF. -/
def rawLine (line : Bytes × Bytes) : Bytes := line.1 ++ colon :: (line.2 ++ [CR, LF])

/-- The lines of the input that the step reads, and goes on behind them. -/
def Taken (registry : Registry H) (xs : Bytes) : Prop :=
  ∃ ls : List (Bytes × Bytes), (∀ l ∈ ls, Clean l) ∧ (∀ l ∈ ls, thrown registry (asRead l) = none) ∧
    ls.flatMap rawLine ++ [CR, LF] <+: xs

/-- Of the lines of the input one throws. -/
def Refused (registry : Registry H) (e : Exn) (xs : Bytes) : Prop :=
  ∃ (ls : List (Bytes × Bytes)) (line : Bytes × Bytes), (∀ l ∈ ls, Clean l) ∧ Clean line ∧
    (∀ l ∈ ls, thrown registry (asRead l) = none) ∧ thrown registry (asRead line) = some e ∧
      ls.flatMap rawLine ++ rawLine line <+: xs

theorem header_rawLine {line : Bytes × Bytes} (h : Clean line) (rest : Bytes) :
    header (rawLine line ++ rest) = some ((asRead line).1, (asRead line).2, rest) := by
  obtain ⟨name, text⟩ := line
  have htok : ∀ x ∈ name, x ∉ [colon] := fun x hx hin => by
    rw [List.mem_singleton] at hin
    exact h.colon (hin ▸ hx)
  have htext : rawLine (name, text) ++ rest = name ++ colon :: (text ++ CR :: LF :: rest) := by
    simp [rawLine]
  have hdrop : (text ++ CR :: LF :: rest).dropWhile (· = SP) =
      text.dropWhile (· = SP) ++ CR :: LF :: rest := by
    rw [List.dropWhile_append]
    split
    · rename_i hall
      rw [List.isEmpty_iff.mp hall]
      rfl
    · rfl
  have hvalue : OneLine (text.dropWhile (· = SP)) := h.oneLine.suffix (List.dropWhile_suffix _)
  rw [htext, header, match_until_token (by simp) htok]
  simp only [List.drop_succ_cons, List.drop_zero, hdrop, hvalue.untilEol rest]
  rfl

/-- What is read is a line of the input. -/
theorem header_split {name value rest : Bytes} (heol : Pistache.eol xs = false)
    (h : header xs = some (name, value, rest)) :
    ∃ line, Clean line ∧ asRead line = (name, value) ∧ xs = rawLine line ++ rest := by
  have hline := header_isLine heol h
  unfold header at h
  split at h
  · cases h
  · rename_i n c hm
    obtain ⟨hxs, k, text, rfl, hk⟩ := match_until_some hm
    obtain rfl : k = colon := by simpa using hk
    split at h
    · cases h
    · rename_i v d hv
      simp only [Option.some.injEq, Prod.mk.injEq] at h
      obtain ⟨rfl, rfl, rfl⟩ := h
      obtain ⟨hdrop, rest, rfl⟩ := untilEol_some hv
      rw [List.drop_succ_cons, List.drop_zero] at hdrop
      have hspaces : ∀ c ∈ text.takeWhile (· = SP), decide (c = SP) = true := by
        intro c hc
        exact List.mem_takeWhile_imp (p := fun c => decide (c = SP)) hc
      have hsplit : text = text.takeWhile (· = SP) ++ (v ++ CR :: LF :: rest) := by
        rw [← hdrop, List.takeWhile_append_dropWhile]
      have hvalue : v.dropWhile (· = SP) = v := by
        cases v with
        | nil => rfl
        | cons c v =>
          have hspace : c ≠ SP := by simpa using hline.space
          rw [List.dropWhile_cons, if_neg (by simpa using hspace)]
      generalize text.takeWhile (· = SP) = spaces at hspaces hsplit
      have honeLine : OneLine (spaces ++ v) := by
        clear hsplit
        induction spaces with
        | nil => exact hline.oneLine
        | cons c spaces ih =>
          obtain rfl : c = SP := by simpa using hspaces c List.mem_cons_self
          exact (ih fun d hd => hspaces d (List.mem_cons_of_mem SP hd)).cons (by decide) (by decide)
      refine ⟨(n, spaces ++ v), ⟨hline.colon, hline.eol, honeLine⟩, ?_, ?_⟩
      · rw [asRead, List.dropWhile_append_of_pos hspaces, hvalue]
      · rw [hxs, hsplit]
        simp [rawLine]

/-! ## The run of the step -/

theorem readLines_rawLine {line : Bytes × Bytes} (h : Clean line) (m : Derived H L) (rest : Bytes) :
    readLines registry m (rawLine line ++ rest) =
      match thrown registry (asRead line) with
      | none =>
        readLines registry { m with toMessage := update registry (asRead line) m.toMessage } rest
      | some e =>
        ⟨.thrown e, { m with toMessage := update registry (asRead line) m.toMessage },
          rawLine line ++ rest⟩ := by
  have heol : Pistache.eol (rawLine line ++ rest) = false := by
    have := eol_name h.eol (line.2 ++ [CR, LF] ++ rest)
    simpa [rawLine] using this
  rw [readLines, Loop.run_eq (body_shrinks registry), body, heol, header_rawLine h]
  simp only [addHeader_eq, Bool.false_eq_true, if_false]
  cases thrown registry (asRead line) with
  | none => rfl
  | some e => rfl

theorem readLines_rawLines (rest : Bytes) : ∀ {ls : List (Bytes × Bytes)} (m : Derived H L),
    (∀ l ∈ ls, Clean l) → (∀ l ∈ ls, thrown registry (asRead l) = none) →
      readLines registry m (ls.flatMap rawLine ++ rest) =
        readLines registry
          { m with toMessage := applyAll (update registry) (ls.map asRead) m.toMessage } rest
  | [], m, _, _ => rfl
  | l :: ls, m, hclean, hthrown => by
    rw [List.flatMap_cons, List.append_assoc, readLines_rawLine (hclean l List.mem_cons_self),
      hthrown l List.mem_cons_self]
    exact readLines_rawLines rest _ (fun l' hl => hclean l' (List.mem_cons_of_mem l hl))
      fun l' hl => hthrown l' (List.mem_cons_of_mem l hl)

/-- A line that throws ends the reading. -/
theorem readLines_rawLines_next (rest : Bytes) : ∀ {ls : List (Bytes × Bytes)} (m : Derived H L),
    (∀ l ∈ ls, Clean l) →
      (readLines registry m (ls.flatMap rawLine ++ rest)).result = .Next →
        ∀ l ∈ ls, thrown registry (asRead l) = none
  | [], _, _, _ => by simp
  | l :: ls, m, hclean, hnext => by
    rw [List.flatMap_cons, List.append_assoc, readLines_rawLine (hclean l List.mem_cons_self)] at hnext
    cases hthrown : thrown registry (asRead l) with
    | some e => simp [hthrown] at hnext
    | none =>
      simp only [hthrown] at hnext
      exact List.forall_mem_cons.mpr ⟨hthrown, readLines_rawLines_next rest _
        (fun l' hl => hclean l' (List.mem_cons_of_mem l hl)) hnext⟩

/-- Lines that do not throw, and the blank line behind them. -/
theorem apply_taken (m : Derived H L) (hclean : ∀ l ∈ ls, Clean l)
    (hthrown : ∀ l ∈ ls, thrown registry (asRead l) = none) (h : ls.flatMap rawLine ++ [CR, LF] <+: xs) :
    (apply registry m xs).result = .Next ∧ (apply registry m xs).state =
      { m with toMessage := applyAll (update registry) (ls.map asRead) m.toMessage } := by
  obtain ⟨rest, rfl⟩ := h
  have hread := readLines_rawLines (CR :: LF :: rest) m hclean hthrown
  have htext : ls.flatMap rawLine ++ CR :: LF :: rest = ls.flatMap rawLine ++ [CR, LF] ++ rest := by simp
  rw [readLines_blank, htext] at hread
  rw [apply, revert_result, revert_state]
  show (readLines registry m _).result = _ ∧ (readLines registry m _).state = _
  rw [hread]
  exact ⟨rfl, rfl⟩

theorem apply_refused {e : Exn} (m : Derived H L) (h : Refused registry e xs) :
    (apply registry m xs).result = .thrown e := by
  obtain ⟨ls, line, hclean, hline, hthrown, he, rest, rfl⟩ := h
  rw [apply, revert_result]
  show (readLines registry m _).result = _
  rw [List.append_assoc, readLines_rawLines _ m hclean hthrown, readLines_rawLine hline, he]

/-- **Every input is taken, refused, or not yet complete.** -/
theorem apply_cases (registry : Registry H) : ∀ (n : Nat) (xs : Bytes), xs.length < n →
    ∀ m : Derived H L, Taken registry xs ∨ (∃ e, Refused registry e xs) ∨
      (apply registry m xs).result = .Again
  | 0, _, hn, _ => absurd hn (Nat.not_lt_zero _)
  | n + 1, xs, hn, m => by
    cases heol : Pistache.eol xs with
    | true =>
      obtain ⟨rest, rfl⟩ := eol_iff.mp heol
      exact .inl ⟨[], by simp, by simp, rest, rfl⟩
    | false =>
      cases hh : header xs with
      | none =>
        refine .inr (.inr ?_)
        rw [apply, revert_result, Loop.run_eq (body_shrinks registry), body, heol, hh]
        rfl
      | some p =>
        obtain ⟨name, value, rest⟩ := p
        obtain ⟨line, hline, hread, rfl⟩ := header_split heol hh
        have hlt : rest.length < n := by
          rw [List.length_append, rawLine, List.length_append, List.length_cons] at hn
          omega
        cases hthrown : thrown registry (asRead line) with
        | some e =>
          exact .inr (.inl ⟨e, [], line, by simp, hline, by simp, hthrown, rest, rfl⟩)
        | none =>
          rcases apply_cases registry n rest hlt
              { m with toMessage := update registry (asRead line) m.toMessage } with
            ⟨ls, hclean, hnone, behind, rfl⟩ | ⟨e, ls, last, hclean, hlast, hnone, he, behind, rfl⟩ | hagain
          · refine .inl ⟨line :: ls, ?_, ?_, behind, by simp⟩
            · exact List.forall_mem_cons.mpr ⟨hline, hclean⟩
            · exact List.forall_mem_cons.mpr ⟨hthrown, hnone⟩
          · refine .inr (.inl ⟨e, line :: ls, last, ?_, hlast, ?_, he, behind, by simp⟩)
            · exact List.forall_mem_cons.mpr ⟨hline, hclean⟩
            · exact List.forall_mem_cons.mpr ⟨hthrown, hnone⟩
          · refine .inr (.inr ?_)
            rw [apply, revert_result] at hagain ⊢
            show (readLines registry m _).result = _
            rw [readLines_rawLine hline, hthrown]
            exact hagain

/-- **When the step goes on.** -/
theorem apply_next_iff (m : Derived H L) (xs : Bytes) :
    (apply registry m xs).result = .Next ↔ Taken registry xs := by
  constructor
  · intro h
    rcases apply_cases registry _ xs (Nat.lt_succ_self _) m with htaken | ⟨e, hrefused⟩ | hagain
    · exact htaken
    · rw [apply_refused m hrefused] at h
      cases h
    · rw [hagain] at h
      cases h
  · rintro ⟨ls, hclean, hthrown, hpre⟩
    exact (apply_taken m hclean hthrown hpre).1

/-- **When it throws.** -/
theorem apply_thrown_iff (m : Derived H L) (xs : Bytes) (e : Exn) :
    (apply registry m xs).result = .thrown e ↔ Refused registry e xs := by
  constructor
  · intro h
    rcases apply_cases registry _ xs (Nat.lt_succ_self _) m with htaken | ⟨e', hrefused⟩ | hagain
    · rw [(apply_next_iff m xs).mpr htaken] at h
      cases h
    · rw [apply_refused m hrefused] at h
      cases h
      exact hrefused
    · rw [hagain] at h
      cases h
  · exact apply_refused m

/-! ## The grammar -/

/-- A name that is a token, and a text on one line. -/
structure Field (line : Bytes × Bytes) : Prop where
  name_ne : line.1 ≠ []
  name : ∀ c ∈ line.1, c ≠ colon ∧ isspace c = false
  text : OneLine line.2

/-- The value of a line: the text without the white space around it. -/
def trimmed (text : Bytes) : Bytes :=
  (text.dropWhile fun c => c = SP ∨ c = HT).rdropWhile fun c => c = SP ∨ c = HT

/-- The lines of a header block, with the blank line behind them. -/
structure IsBlock (ls : List (Bytes × Bytes)) (xs : Bytes) : Prop where
  fields : ∀ l ∈ ls, Field l
  lines : ls.flatMap rawLine ++ [CR, LF] <+: xs

/-- `addRaw` of each name and its value. -/
def addFields (ls : List (Bytes × Bytes)) (coll : Header.Collection H) : Header.Collection H :=
  ls.foldl (fun coll l => coll.addRaw ⟨l.1, trimmed l.2⟩) coll

/-- In front of the blank line there is a complete line without a colon. -/
def Colonless (xs : Bytes) : Prop :=
  ∃ (front : List Bytes) (line : Bytes), (∀ l ∈ front, OneLine l ∧ l ≠ []) ∧ OneLine line ∧
    line ≠ [] ∧ colon ∉ line ∧ front.flatMap (· ++ [CR, LF]) ++ (line ++ [CR, LF]) <+: xs

/-- **The step goes by the grammar** on an input: it goes on behind the lines of a header block
and with their values, and it refuses a line without a colon. -/
structure ByGrammar (registry : Registry H) (m : Derived H L) (xs : Bytes) : Prop where
  next : (apply registry m xs).result = .Next ↔ ∃ ls, IsBlock ls xs
  raw : (apply registry m xs).result = .Next → ∃ ls, IsBlock ls xs ∧
    (apply registry m xs).state.headers_.rawHeaders = (addFields ls m.headers_).rawHeaders
  colonless : Colonless xs →
    ∃ code reason, (apply registry m xs).result = .thrown (.http code reason)

theorem Field.clean {line : Bytes × Bytes} (h : Field line) : Clean line where
  colon hin := (h.name _ hin).1 rfl
  eol := by
    obtain ⟨c, name, hname⟩ := List.exists_cons_of_ne_nil h.name_ne
    have hspace := (h.name c (by rw [hname]; exact List.mem_cons_self)).2
    rw [hname, Bool.eq_false_iff]
    intro heol
    obtain ⟨rest, hrest⟩ := eol_iff.mp heol
    rw [(List.cons.inj hrest).1] at hspace
    exact absurd hspace (by decide)
  oneLine := h.text

/-- A line of the grammar stands on one line. -/
theorem Field.oneLine {line : Bytes × Bytes} (h : Field line) :
    OneLine (line.1 ++ colon :: line.2) := by
  refine (oneLine_append_cons (by decide) (by decide)).mpr ⟨oneLine_of_not_mem fun hin => ?_, h.text⟩
  exact absurd (h.name _ hin).2 (by decide)

/-- In a header block each line has a colon. -/
theorem IsBlock.not_colonless (h : IsBlock ls xs) : ¬Colonless xs := by
  rintro ⟨front, line, hfront, honeLine, hne, hcolon, hpre⟩
  have hfirst : ∀ {a b xs : Bytes}, OneLine a → OneLine b → a ++ [CR, LF] <+: xs →
      b ++ [CR, LF] <+: xs → a = b := by
    rintro a b xs ha hb ⟨r, rfl⟩ ⟨r', hr'⟩
    have h₁ := ha.untilEol r
    have h₂ := hb.untilEol r'
    have htext : a ++ CR :: LF :: r = b ++ CR :: LF :: r' := by simpa using hr'.symm
    rw [htext, h₂, Option.some.injEq, Prod.mk.injEq] at h₁
    exact h₁.1.symm
  obtain ⟨hfields, hlines⟩ := h
  induction ls generalizing front xs with
  | nil =>
    -- the blank line is the first one
    have hnil : OneLine [] := by decide
    cases front with
    | nil => exact hne (hfirst hnil honeLine hlines hpre).symm
    | cons l front =>
      obtain ⟨hl, hlne⟩ := hfront l List.mem_cons_self
      rw [List.flatMap_cons, List.append_assoc] at hpre
      exact hlne (hfirst hnil hl hlines ((List.prefix_append _ _).trans hpre)).symm
  | cons field ls ih =>
    have hfield := hfields field List.mem_cons_self
    have hraw : rawLine field = field.1 ++ colon :: field.2 ++ [CR, LF] := by simp [rawLine]
    rw [List.flatMap_cons, List.append_assoc, hraw] at hlines
    have hhead := (List.prefix_append _ _).trans hlines
    cases front with
    | nil =>
      have hsame := hfirst hfield.oneLine honeLine hhead hpre
      exact hcolon (hsame ▸ by simp)
    | cons l front =>
      obtain ⟨hl, -⟩ := hfront l List.mem_cons_self
      rw [List.flatMap_cons, List.append_assoc] at hpre
      have hsame := hfirst hl hfield.oneLine ((List.prefix_append _ _).trans hpre) hhead
      obtain ⟨rest, rfl⟩ := hlines
      rw [hsame, List.append_assoc (_ ++ [CR, LF]), List.prefix_append_right_inj] at hpre
      exact ih front (fun l' hin => hfront l' (List.mem_cons_of_mem l hin)) hpre
        (fun l' hin => hfields l' (List.mem_cons_of_mem field hin)) ⟨rest, rfl⟩

/-! ## The values -/

/-- What is stored of the lines that the step reads. -/
theorem rawHeaders_taken (hthrown : ∀ l ∈ ls, thrown registry (asRead l) = none) (m : Message H) :
    (applyAll (update registry) (ls.map asRead) m).headers_.rawHeaders =
      applyAll (fun e t => insertNew e.1 e.2 t)
        (ls.map fun l => (l.1.map tolower, (⟨l.1, l.2.dropWhile (· = SP)⟩ : Raw)))
          m.headers_.rawHeaders := by
  have hentries : (ls.map asRead).filterMap (rawEntry registry) =
      ls.map fun l => (l.1.map tolower, (⟨l.1, l.2.dropWhile (· = SP)⟩ : Raw)) := by
    rw [List.filterMap_map, ← List.filterMap_eq_map]
    refine List.filterMap_congr fun l hl => ?_
    rw [Function.comp_apply, rawEntry, if_pos (hthrown l hl)]
    rfl
  rw [applyAll_update_rawHeaders, hentries]

theorem rawHeaders_addFields : ∀ (ls : List (Bytes × Bytes)) (coll : Header.Collection H),
    (addFields ls coll).rawHeaders = applyAll (fun e t => insertNew e.1 e.2 t)
      (ls.map fun l => (l.1.map tolower, (⟨l.1, trimmed l.2⟩ : Raw))) coll.rawHeaders
  | [], _ => rfl
  | l :: ls, coll => by
    show (addFields ls (coll.addRaw ⟨l.1, trimmed l.2⟩)).rawHeaders = _
    rw [rawHeaders_addFields ls]
    rfl

/-- The lines whose values are stored, the first of each name that the message does not have,
have no white space around the value but spaces in front of it. -/
def Spaced (ls : List (Bytes × Bytes)) (coll : Header.Collection H) : Prop :=
  ∀ front l back, ls = front ++ l :: back → coll.rawHeaders.lookup (l.1.map tolower) = none →
    l.1.map tolower ∉ front.map (fun l' => l'.1.map tolower) →
      l.2.dropWhile (· = SP) = trimmed l.2

theorem rawHeaders_iff (hthrown : ∀ l ∈ ls, thrown registry (asRead l) = none) (m : Message H) :
    (applyAll (update registry) (ls.map asRead) m).headers_.rawHeaders =
        (addFields ls m.headers_).rawHeaders ↔ Spaced ls m.headers_ := by
  rw [rawHeaders_taken hthrown, rawHeaders_addFields, applyAll_insertNew_congr]
  unfold Spaced
  simp only [Raw.mk.injEq, true_and]

/-! ## Where the step goes by the grammar -/

/-- The inputs that the step handles by the grammar. -/
inductive Regular (registry : Registry H) (m : Derived H L) (xs : Bytes) : Prop where
  /-- A header block of which no line throws. -/
  | block (ls : List (Bytes × Bytes)) (h : IsBlock ls xs)
      (hthrown : ∀ l ∈ ls, thrown registry (asRead l) = none) (hspaced : Spaced ls m.headers_)
  /-- No header block, and none that the step takes for one: a complete line without a colon
  is there only behind a line that throws an `HttpError`. -/
  | other (h : ∀ ls, ¬IsBlock ls xs) (htaken : ¬Taken registry xs)
      (hcolonless : Colonless xs → ∃ code reason, Refused registry (.http code reason) xs)

/-- Of the lines of a block none throws if the step goes on. -/
theorem IsBlock.thrown_none (h : IsBlock ls xs) (hnext : (apply registry m xs).result = .Next) :
    ∀ l ∈ ls, thrown registry (asRead l) = none := by
  obtain ⟨rest, rfl⟩ := h.lines
  rw [apply, revert_result, List.append_assoc] at hnext
  exact readLines_rawLines_next _ m (fun l hl => (h.fields l hl).clean) hnext

/-- **The step goes by the grammar** exactly on the regular inputs. -/
theorem headerBlock_iff (m : Derived H L) (xs : Bytes) :
    ByGrammar registry m xs ↔ Regular registry m xs := by
  constructor
  · intro h
    by_cases hnext : (apply registry m xs).result = .Next
    · obtain ⟨ls, hblock, hraw⟩ := h.raw hnext
      have hthrown := hblock.thrown_none hnext
      have hclean : ∀ l ∈ ls, Clean l := fun l hl => (hblock.fields l hl).clean
      rw [(apply_taken m hclean hthrown hblock.lines).2] at hraw
      exact .block ls hblock hthrown ((rawHeaders_iff hthrown m.toMessage).mp hraw)
    · refine .other (fun ls hblock => hnext (h.next.mpr ⟨ls, hblock⟩))
        (fun htaken => hnext ((apply_next_iff m xs).mpr htaken)) fun hcolonless => ?_
      obtain ⟨code, reason, hthrown⟩ := h.colonless hcolonless
      exact ⟨code, reason, (apply_thrown_iff m xs _).mp hthrown⟩
  · intro h
    cases h with
    | block ls hblock hthrown hspaced =>
      have hclean : ∀ l ∈ ls, Clean l := fun l hl => (hblock.fields l hl).clean
      obtain ⟨hnext, hstate⟩ := apply_taken m hclean hthrown hblock.lines
      refine ⟨iff_of_true hnext ⟨ls, hblock⟩, fun _ => ⟨ls, hblock, ?_⟩,
        fun hcolonless => absurd hcolonless hblock.not_colonless⟩
      rw [hstate]
      exact (rawHeaders_iff hthrown m.toMessage).mpr hspaced
    | other hno htaken hcolonless =>
      have hnext : (apply registry m xs).result ≠ .Next := fun hnext =>
        htaken ((apply_next_iff m xs).mp hnext)
      refine ⟨iff_of_false hnext fun ⟨ls, hblock⟩ => hno ls hblock, fun h => absurd h hnext,
        fun hline => ?_⟩
      obtain ⟨code, reason, hrefused⟩ := hcolonless hline
      exact ⟨code, reason, (apply_thrown_iff m xs _).mpr hrefused⟩

/-- A line without a colon is read as a part of the next name. -/
theorem apply_joined :
    (apply Registry.basic (Request.new : Request Unit) (lit "foo\r\nA: b\r\n\r\n")).result = .Next ∧
      (apply Registry.basic (Request.new : Request Unit)
        (lit "foo\r\nA: b\r\n\r\n")).state.headers_.rawHeaders =
          [(lit "foo\r\na", ⟨lit "foo\r\nA", lit "b"⟩)] ∧
      ¬∀ xs, ByGrammar Registry.basic (Request.new : Request Unit) xs := by
  have hnext : (apply Registry.basic (Request.new : Request Unit)
      (lit "foo\r\nA: b\r\n\r\n")).result = .Next := by decide
  refine ⟨hnext, by decide, fun h => ?_⟩
  have hline : Colonless (lit "foo\r\nA: b\r\n\r\n") :=
    ⟨[], lit "foo", by simp, by decide, by decide, by decide, lit "A: b\r\n\r\n", by decide⟩
  obtain ⟨code, reason, hthrown⟩ := (h _).colonless hline
  rw [hnext] at hthrown
  cases hthrown

end Http.HeadersStep

end Pistache
