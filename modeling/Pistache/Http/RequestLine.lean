import Pistache.Http.RequestTarget

/-!
# The grammar of a request line

`RequestLineStep` looks for two spaces and then for a CRLF.  It compares as many characters of
the version as there are, and it does not look for the end of the line in front of the version.

Principal results:

* `RequestLineStep.apply_line` — what the step reads from a line of the grammar.
* `RequestLineStep.lineGrammar_iff` — the inputs on which it takes the lines of the grammar and
  refuses other lines.
-/

set_option autoImplicit false

namespace Pistache.Http.RequestLineStep

open Replay Resumable

variable {H : Type}

/-! ## The grammar -/

/-- The text of a version. -/
def versionText : Version → Bytes
  | .Http10 => lit "HTTP/1.0"
  | .Http11 => lit "HTTP/1.1"

/-- A method of the table, a target on one line and without spaces, and a version. -/
structure Line where
  methodToken : Bytes
  method : Method
  target : Bytes
  version : Version
  known : (methodToken, method) ∈ httpMethods
  target_space : SP ∉ target
  target_line : CR ∉ target ∧ LF ∉ target

/-- `METHOD SP target SP version CRLF`. -/
def Line.text (line : Line) : Bytes :=
  line.methodToken ++ SP :: (line.target ++ SP :: (versionText line.version ++ [CR, LF]))

/-- What the line says. -/
def Line.read (line : Line) (request : Request H) : Request H :=
  { targetRead line.method line.target request with version_ := line.version }

/-- The input begins with a line of the grammar. -/
def WellFormed (xs : Bytes) : Prop := ∃ line : Line, line.text <+: xs

variable (H) in
/-- **The step goes by the grammar** on an input: it goes on behind a line of it and with what
the line says, and it refuses every other line that is complete. -/
structure ByGrammar (xs : Bytes) : Prop where
  next : (apply (Request.new : Request H) xs).result = .Next ↔ WellFormed xs
  read : ∀ line : Line, line.text <+: xs →
    (apply (Request.new : Request H) xs).state = line.read Request.new
  refused : ∀ first : Bytes, OneLine first → first ++ [CR, LF] <+: xs → ¬WellFormed xs →
    ∃ code reason, (apply (Request.new : Request H) xs).result = .thrown (.http code reason)

/-! ## The version -/

/-- What the step takes for a version: the beginning of one, or one with a NUL behind it. -/
def Accepted (text : Bytes) : Prop :=
  ∃ v : Version, text <+: versionText v ∨ versionText v ++ [0] <+: text

theorem accepted_iff {text : Bytes} : Accepted text ↔
    strncmpEq text (lit "HTTP/1.0") = true ∨ strncmpEq text (lit "HTTP/1.1") = true := by
  rw [strncmpEq_iff (by decide), strncmpEq_iff (by decide)]
  constructor
  · rintro ⟨v, h⟩
    cases v with
    | Http10 => exact .inl h
    | Http11 => exact .inr h
  · rintro (h | h)
    · exact ⟨.Http10, h⟩
    · exact ⟨.Http11, h⟩

/-- **The version**, when the CRLF behind it is there. -/
theorem version_ended {text : Bytes} (h : OneLine text) (request : Request H) (rest : Bytes) :
    (Accepted text ∧ (version request (SP :: (text ++ CR :: LF :: rest))).result = .Next) ∨
      (¬Accepted text ∧ ∃ code reason,
        (version request (SP :: (text ++ CR :: LF :: rest))).result = .thrown (.http code reason)) := by
  rw [accepted_iff]
  simp only [version, List.drop_succ_cons, List.drop_zero, h.untilEol rest]
  by_cases h₀ : strncmpEq text (lit "HTTP/1.0") = true
  · exact .inl ⟨.inl h₀, by rw [if_pos h₀]⟩
  · by_cases h₁ : strncmpEq text (lit "HTTP/1.1") = true
    · exact .inl ⟨.inr h₁, by rw [if_neg h₀, if_pos h₁]⟩
    · refine .inr ⟨fun hacc => hacc.elim h₀ h₁, .Bad_Request, "Encountered invalid HTTP version", ?_⟩
      rw [if_neg h₀, if_neg h₁]
      rfl

theorem version_text (v : Version) (request : Request H) (rest : Bytes) :
    version request (SP :: (versionText v ++ CR :: LF :: rest)) =
      ⟨.Next, (Update.version v).apply request, rest⟩ := by
  cases v with
  | Http10 =>
    have hline : OneLine (lit "HTTP/1.0") := by decide
    have h₀ : strncmpEq (lit "HTTP/1.0") (lit "HTTP/1.0") = true := by decide
    simp [version, versionText, hline.untilEol rest, h₀]
  | Http11 => exact version_http11 request rest

/-! ## The step -/

/-- The methods of the table are found, and there is no space in their names. -/
theorem known_method {text : Bytes} {m : Method} (h : (text, m) ∈ httpMethods) :
    SP ∉ text ∧ OneLine text ∧ httpMethods.lookup text = some m := by
  have hall : ∀ e ∈ httpMethods, SP ∉ e.1 ∧ OneLine e.1 ∧ httpMethods.lookup e.1 = some e.2 := by
    decide
  exact hall (text, m) h

/-- **A line of the grammar is read.** -/
theorem apply_line (line : Line) (request : Request H) (rest : Bytes) :
    apply request (line.text ++ rest) = ⟨.Next, line.read request, rest⟩ := by
  obtain ⟨hspace, -, hlookup⟩ := known_method line.known
  have htext : line.text ++ rest = line.methodToken ++ SP :: (line.target ++
      SP :: (versionText line.version ++ CR :: LF :: rest)) := by
    simp [Line.text]
  rw [htext, apply_target hspace hlookup line.target_space, revert, version_text]
  rfl

/-- Without a space behind it the loop of the query does not come to its end. -/
theorem query_again {xs : Bytes} (h : SP ∉ xs) (request : Request H) :
    (query request xs).result = .Again := by
  refine Loop.run_induction queryBody_shrinks _ (fun _ xs => SP ∉ xs)
    (fun o => o.result = State.Again) ?_ ?_ request xs h
  · intro request xs o hxs hbody
    have hcur : current xs ≠ SP := by
      cases xs with
      | nil => decide
      | cons x xs => exact fun heq => hxs (by rw [← heq]; exact List.mem_cons_self)
    unfold queryBody at hbody
    rw [if_neg hcur] at hbody
    split at hbody
    · cases hbody
      rfl
    · split at hbody
      · cases hbody
      · split at hbody
        · cases hbody
        · split at hbody
          · cases hbody
            rfl
          · dsimp only at hbody
            split at hbody
            · cases hbody
            · cases hbody
  · intro request xs request' xs' hxs hbody hin
    have hsuffix : xs' <:+ xs := by
      unfold queryBody at hbody
      split at hbody
      · cases hbody
      · split at hbody
        · cases hbody
        · rename_i hkey
          have hrest := match_until_suffix hkey
          split at hbody
          · cases hbody
            exact hrest
          · split at hbody
            · cases hbody
              exact (List.drop_suffix 1 _).trans hrest
            · split at hbody
              · cases hbody
              · rename_i hvalue
                have hrest' := (match_until_suffix hvalue).trans ((List.drop_suffix 1 _).trans hrest)
                dsimp only at hbody
                split at hbody
                · cases hbody
                  exact (List.drop_suffix 1 _).trans hrest'
                · cases hbody
                  exact hrest'
    exact hxs (hsuffix.mem hin)

/-- Without a second space the step waits for more. -/
theorem apply_again {text : Bytes} {m : Method} (htext : SP ∉ text)
    (hlookup : httpMethods.lookup text = some m) {behind : Bytes} (h : SP ∉ behind)
    (request : Request H) : (apply request (text ++ SP :: behind)).result = .Again := by
  unfold apply revert
  simp only [andThen, method_read htext hlookup, if_true]
  unfold resource
  cases hmatch : match_until [questionMark, SP] behind with
  | none => rfl
  | some p =>
    obtain ⟨target, rest⟩ := p
    have hrest : SP ∉ (if current rest = questionMark then rest.drop 1 else rest) := by
      have hsuffix := match_until_suffix hmatch
      split
      · exact fun hin => h (hsuffix.mem ((List.drop_sublist 1 rest).mem hin))
      · exact fun hin => h (hsuffix.mem hin)
    have hquery := query_again hrest ((Update.resource target).apply ((Update.method m).apply request))
    dsimp only
    generalize query _ _ = o at hquery ⊢
    simp [hquery]

/-- **How the step ends**, case by case: what there is of the two spaces and of the CRLF. -/
theorem apply_cases (xs : Bytes) :
    (apply (Request.new : Request H) xs).result = .Again ∨
      (∃ text behind, xs = text ++ SP :: behind ∧ SP ∉ text ∧ httpMethods.lookup text = none) ∨
      ∃ text m target v, text ++ SP :: (target ++ SP :: (v ++ [CR, LF])) <+: xs ∧ SP ∉ text ∧
        httpMethods.lookup text = some m ∧ SP ∉ target ∧ OneLine v := by
  by_cases hfirst : SP ∈ xs
  · obtain ⟨text, behind, rfl, htext⟩ := List.eq_append_cons_of_mem hfirst
    cases hlookup : httpMethods.lookup text with
    | none => exact .inr (.inl ⟨text, behind, rfl, htext, hlookup⟩)
    | some m =>
      by_cases hsecond : SP ∈ behind
      · obtain ⟨target, behind, rfl, htarget⟩ := List.eq_append_cons_of_mem hsecond
        cases hline : untilEol behind with
        | none =>
          refine .inl ?_
          rw [apply_target htext hlookup htarget]
          simp [revert, version, hline]
        | some p =>
          obtain ⟨v, rest⟩ := p
          obtain ⟨rfl, rest, rfl⟩ := untilEol_some hline
          refine .inr (.inr ⟨text, m, target, v, ⟨rest, by simp⟩, htext, hlookup, htarget, ?_⟩)
          exact untilEol_oneLine hline
      · exact .inl (apply_again htext hlookup hsecond Request.new)
  · refine .inl ?_
    have hnone : match_until [SP] xs = none := match_until_none fun x hx hin => by
      rw [List.mem_singleton] at hin
      exact hfirst (hin ▸ hx)
    simp [apply, revert, andThen, method, hnone]

/-! ## Where the step goes by the grammar -/

/-- The inputs that the step handles by the grammar. -/
inductive Regular (xs : Bytes) : Prop where
  /-- There is no complete line. -/
  | incomplete (h : OneLine xs)
  | line (h : WellFormed xs)
  /-- In front of the first space there is no method. -/
  | method (text behind : Bytes) (h : xs = text ++ SP :: behind) (htext : SP ∉ text)
      (hlookup : httpMethods.lookup text = none)
  /-- Between the second space and the first CRLF behind it there is nothing that is taken for a
  version. -/
  | version (text : Bytes) (m : Method) (target v : Bytes)
      (h : text ++ SP :: (target ++ SP :: (v ++ [CR, LF])) <+: xs) (htext : SP ∉ text)
      (hlookup : httpMethods.lookup text = some m) (htarget : SP ∉ target) (hv : OneLine v)
      (hversion : ¬Accepted v)

theorem apply_unknown {text : Bytes} (htext : SP ∉ text) (hlookup : httpMethods.lookup text = none)
    (request : Request H) (behind : Bytes) :
    (apply request (text ++ SP :: behind)).result =
      .thrown (.http .Bad_Request "Unknown HTTP request method") := by
  have htok : ∀ x ∈ text, x ∉ [SP] := fun x hx hin => by
    rw [List.mem_singleton] at hin
    exact htext (hin ▸ hx)
  simp [apply, revert, andThen, RequestLineStep.method,
    match_until_token (show SP ∈ [SP] by simp) htok, hlookup, raise]

/-- The result is that of the version. -/
theorem apply_version {xs text : Bytes} {m : Method} {target v : Bytes}
    (h : text ++ SP :: (target ++ SP :: (v ++ [CR, LF])) <+: xs) (htext : SP ∉ text)
    (hlookup : httpMethods.lookup text = some m) (htarget : SP ∉ target) :
    ∃ rest, (apply (Request.new : Request H) xs).result = (RequestLineStep.version
      (targetRead m target (Request.new : Request H)) (SP :: (v ++ CR :: LF :: rest))).result := by
  obtain ⟨rest, rfl⟩ := h
  refine ⟨rest, ?_⟩
  have hsplit : text ++ SP :: (target ++ SP :: (v ++ [CR, LF])) ++ rest =
      text ++ SP :: (target ++ SP :: (v ++ CR :: LF :: rest)) := by simp
  rw [hsplit, apply_target htext hlookup htarget, revert]
  split
  · rfl
  · rfl

/-- A line of the grammar goes on. -/
theorem apply_wellFormed {xs : Bytes} (h : WellFormed xs) :
    (apply (Request.new : Request H) xs).result = .Next := by
  obtain ⟨line, rest, rfl⟩ := h
  rw [apply_line]

/-- The grammar is kept on an input without such a line if the step does not go on. -/
theorem byGrammar_of_refused {xs : Bytes}
    (hnext : (apply (Request.new : Request H) xs).result ≠ .Next)
    (hrefused : ¬OneLine xs → ∃ code reason,
      (apply (Request.new : Request H) xs).result = .thrown (.http code reason)) :
    ByGrammar H xs where
  next := ⟨fun h => absurd h hnext, fun h => absurd (apply_wellFormed h) hnext⟩
  read line h := absurd (apply_wellFormed ⟨line, h⟩) hnext
  refused first _ hpre _ := hrefused fun hone => hone
    ((List.suffix_append first [CR, LF]).isInfix.trans hpre.isInfix)

/-- **The step goes by the grammar** exactly on the regular inputs. -/
theorem lineGrammar_iff (xs : Bytes) : ByGrammar H xs ↔ Regular xs := by
  constructor
  · intro h
    have hagain : (apply (Request.new : Request H) xs).result = .Again → Regular xs := by
      intro hagain
      by_cases hone : OneLine xs
      · exact .incomplete hone
      · -- a complete line would have been refused
        exfalso
        cases hline : untilEol xs with
        | none => exact hone (untilEol_eq_none.mp hline)
        | some p =>
          obtain ⟨first, rest⟩ := p
          obtain ⟨hxs, rest, rfl⟩ := untilEol_some hline
          have hwf : ¬WellFormed xs := fun hwf => by
            rw [h.next.mpr hwf] at hagain
            cases hagain
          obtain ⟨code, reason, hthrown⟩ := h.refused first (untilEol_oneLine hline)
            ⟨rest, by rw [hxs]; simp⟩ hwf
          rw [hagain] at hthrown
          cases hthrown
    rcases apply_cases (H := H) xs with hres | ⟨text, behind, hxs, htext, hlookup⟩ |
      ⟨text, m, target, v, hpre, htext, hlookup, htarget, hv⟩
    · exact hagain hres
    · exact .method text behind hxs htext hlookup
    · obtain ⟨rest, hres⟩ := apply_version (H := H) hpre htext hlookup htarget
      rcases version_ended hv (targetRead m target (Request.new : Request H)) rest with
        ⟨-, hnext⟩ | ⟨hversion, -⟩
      · rw [hnext] at hres
        exact .line (h.next.mp hres)
      · exact .version text m target v hpre htext hlookup htarget hv hversion
  · intro h
    cases h with
    | incomplete hone =>
      refine byGrammar_of_refused (fun hnext => ?_) (absurd hone)
      rcases apply_cases (H := H) xs with hres | ⟨text, behind, rfl, htext, hlookup⟩ |
        ⟨text, m, target, v, hpre, -, -, -, -⟩
      · rw [hnext] at hres
        cases hres
      · rw [apply_unknown htext hlookup] at hnext
        cases hnext
      · refine hone (List.IsInfix.trans ?_ hpre.isInfix)
        exact ⟨text ++ SP :: (target ++ SP :: v), [], by simp⟩
    | line hwf =>
      refine ⟨iff_of_true (apply_wellFormed hwf) hwf, fun line hpre => ?_, fun _ _ _ hno => absurd hwf hno⟩
      obtain ⟨rest, rfl⟩ := hpre
      rw [apply_line]
    | method text behind hxs htext hlookup =>
      subst hxs
      have hres := apply_unknown (H := H) htext hlookup Request.new behind
      refine byGrammar_of_refused (fun hnext => ?_) fun _ => ⟨_, _, hres⟩
      rw [hres] at hnext
      cases hnext
    | version text m target v hpre htext hlookup htarget hv hversion =>
      obtain ⟨rest, hres⟩ := apply_version (H := H) hpre htext hlookup htarget
      rcases version_ended hv (targetRead m target (Request.new : Request H)) rest with
        ⟨hacc, -⟩ | ⟨-, code, reason, hthrown⟩
      · exact absurd hacc hversion
      · refine byGrammar_of_refused (fun hnext => ?_) fun _ => ⟨code, reason, by rw [hres, hthrown]⟩
        rw [hres, hthrown] at hnext
        cases hnext

/-- The version `HT` is taken for `HTTP/1.0`. -/
theorem apply_prefix :
    (apply (Request.new : Request Unit) (lit "GET / HT\r\n")).result = .Next ∧
      (apply (Request.new : Request Unit) (lit "GET / HT\r\n")).state.version_ = .Http10 ∧
      ¬∀ xs, ByGrammar Unit xs := by
  have hnext : (apply (Request.new : Request Unit) (lit "GET / HT\r\n")).result = .Next := by
    decide
  refine ⟨hnext, by decide, fun h => ?_⟩
  obtain ⟨line, rest, hline⟩ := (h (lit "GET / HT\r\n")).next.mp hnext
  have hversion : (versionText line.version).length = 8 := by
    cases line.version with
    | Http10 => rfl
    | Http11 => rfl
  have hlength := congrArg List.length hline
  have htext : (lit "GET / HT\r\n").length = 10 := by decide
  rw [htext] at hlength
  simp only [Line.text, List.length_append, List.length_cons, List.length_nil, hversion] at hlength
  omega

end Pistache.Http.RequestLineStep
