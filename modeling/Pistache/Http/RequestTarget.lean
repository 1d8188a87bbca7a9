import Mathlib.Data.List.Perm.Basic
import Mathlib.Algebra.BigOperators.Group.List.Basic
import Pistache.Http.HeadLines

/-!
# The target of a request line

What `RequestLineStep` makes of the text between the method and the version: the resource up to
a `?`, and of what stands behind it the parameters, one of each piece between `&`.

Principal results:

* `RequestLineStep.apply_target` — a request line is read, whatever its target is, as long as
  no space is in it.
* `pieces_length_append`, `pieces_count` — two texts one behind the other have no more pieces
  than both on their own, and all of their characters.
-/

set_option autoImplicit false

namespace Pistache.Http

open Replay Resumable
open RequestLineStep (questionMark ampersand)

/-! ## Pieces of a query -/

/-- The texts between `&`; there is none behind an `&` at the end. -/
def pieces : Bytes → List Bytes
  | [] => []
  | c :: text =>
    if c = ampersand then [] :: pieces text
    else
      match pieces text with
      | [] => [[c]]
      | piece :: ps => (c :: piece) :: ps

/-- The key in front of the first `=` of a piece, and the value behind it. -/
def param (piece : Bytes) : Bytes × Bytes :=
  (piece.takeWhile (· ≠ Cookie.equals), (piece.dropWhile (· ≠ Cookie.equals)).drop 1)

theorem pieces_cons {c : UInt8} (hc : c ≠ ampersand) (text : Bytes) : ∃ piece ps,
    pieces (c :: text) = (c :: piece) :: ps ∧
      (pieces text = [] ∧ piece = [] ∧ ps = [] ∨ pieces text = piece :: ps) := by
  rw [pieces, if_neg hc]
  cases h : pieces text with
  | nil => exact ⟨[], [], rfl, .inl ⟨rfl, rfl, rfl⟩⟩
  | cons piece ps => exact ⟨piece, ps, rfl, .inr rfl⟩

theorem pieces_cons_length {c : UInt8} (hc : c ≠ ampersand) {text : Bytes} (h : pieces text ≠ []) :
    (pieces (c :: text)).length = (pieces text).length := by
  obtain ⟨piece, ps, heq, ⟨hnil, -⟩ | hps⟩ := pieces_cons hc text
  · exact absurd hnil h
  · rw [heq, hps, List.length_cons, List.length_cons]

theorem pieces_separated : ∀ {piece : Bytes}, ampersand ∉ piece → ∀ text : Bytes,
    pieces (piece ++ ampersand :: text) = piece :: pieces text
  | [], _, text => by rw [List.nil_append, pieces, if_pos rfl]
  | c :: piece, h, text => by
    rw [List.mem_cons, not_or] at h
    rw [List.cons_append, pieces, if_neg (Ne.symm h.1), pieces_separated h.2]

theorem pieces_single : ∀ {piece : Bytes}, ampersand ∉ piece → piece ≠ [] → pieces piece = [piece]
  | [c], h, _ => by
    rw [List.mem_singleton] at h
    rw [pieces, if_neg (Ne.symm h), pieces]
  | c :: d :: piece, h, _ => by
    rw [List.mem_cons, not_or] at h
    rw [pieces, if_neg (Ne.symm h.1), pieces_single h.2 (by simp)]

/-- **Two texts have no more pieces together than each on its own.** -/
theorem pieces_length_append : ∀ a b : Bytes,
    (pieces (a ++ b)).length ≤ (pieces a).length + (pieces b).length
  | [], b => by simp [pieces]
  | c :: a, b => by
    have ih := pieces_length_append a b
    by_cases hc : c = ampersand
    · rw [List.cons_append, pieces, if_pos hc, pieces, if_pos hc, List.length_cons, List.length_cons]
      omega
    · rw [List.cons_append]
      obtain ⟨piece, ps, heq, -⟩ := pieces_cons hc a
      by_cases hnil : pieces (a ++ b) = []
      · obtain ⟨piece', ps', heq', ⟨-, -, hps⟩ | hps⟩ := pieces_cons hc (a ++ b)
        · rw [heq', hps, heq, List.length_cons, List.length_cons, List.length_nil]
          omega
        · rw [hnil] at hps
          cases hps
      · rw [pieces_cons_length hc hnil]
        by_cases hnil' : pieces a = []
        · rw [hnil', List.length_nil] at ih
          omega
        · rw [pieces_cons_length hc hnil']
          exact ih

/-- **The pieces have all characters of the text but the `&`.** -/
theorem pieces_count {x : UInt8} (hx : x ≠ ampersand) : ∀ text : Bytes,
    ((pieces text).map (List.count x)).sum = text.count x
  | [] => rfl
  | c :: text => by
    have ih := pieces_count hx text
    by_cases hc : c = ampersand
    · have hne : ampersand ≠ x := Ne.symm hx
      rw [pieces, if_pos hc, List.map_cons, List.sum_cons, ih, List.count_nil, hc,
        List.count_cons_of_ne hne, Nat.zero_add]
    · obtain ⟨piece, ps, heq, ⟨hnil, rfl, rfl⟩ | hps⟩ := pieces_cons hc text
      · rw [hnil] at ih
        rw [heq, List.count_cons, ← ih]
        simp [List.count_cons]
      · rw [hps] at ih
        rw [heq, List.count_cons, ← ih]
        simp only [List.map_cons, List.sum_cons, List.count_cons]
        omega

theorem param_count {x : UInt8} (hx : x ≠ Cookie.equals) (piece : Bytes) :
    (param piece).1.count x + (param piece).2.count x = piece.count x := by
  have hsplit := List.takeWhile_append_dropWhile (p := fun c => decide (c ≠ Cookie.equals)) (l := piece)
  have hdrop : ((piece.dropWhile (· ≠ Cookie.equals)).drop 1).count x =
      (piece.dropWhile (· ≠ Cookie.equals)).count x := by
    cases hd : piece.dropWhile (· ≠ Cookie.equals) with
    | nil => rfl
    | cons c text =>
      have hnot := List.head?_dropWhile_not (fun c => decide (c ≠ Cookie.equals)) piece
      rw [hd] at hnot
      obtain rfl : c = Cookie.equals := by simpa using hnot
      rw [List.drop_succ_cons, List.drop_zero, List.count_cons_of_ne (Ne.symm hx)]
  rw [param, hdrop, ← List.count_append, hsplit]

theorem param_pair {name value : Bytes} (h : Cookie.equals ∉ name) :
    param (name ++ Cookie.equals :: value) = (name, value) := by
  have hall : ∀ c ∈ name, decide (c ≠ Cookie.equals) = true := fun c hc => by
    rw [decide_eq_true_iff]
    rintro rfl
    exact h hc
  rw [param, List.takeWhile_append_of_pos hall, List.dropWhile_append_of_pos hall]
  simp

/-- How often a character stands in some parameters. -/
def paramsCount (x : UInt8) (ps : List (Bytes × Bytes)) : Nat :=
  (ps.map fun e => e.1.count x + e.2.count x).sum

theorem paramsCount_append (x : UInt8) (ps qs : List (Bytes × Bytes)) :
    paramsCount x (ps ++ qs) = paramsCount x ps + paramsCount x qs := by
  simp [paramsCount]

theorem paramsCount_perm {x : UInt8} {ps qs : List (Bytes × Bytes)} (h : ps.Perm qs) :
    paramsCount x ps = paramsCount x qs := (h.map _).sum_eq

theorem paramsCount_param {x : UInt8} (hamp : x ≠ ampersand) (heq : x ≠ Cookie.equals)
    (text : Bytes) : paramsCount x ((pieces text).map param) = text.count x := by
  rw [paramsCount, List.map_map, ← pieces_count hamp text]
  exact congrArg List.sum (List.map_congr_left fun piece _ => param_count heq piece)

theorem paramsCount_eq_zero {x : UInt8} {ps : List (Bytes × Bytes)} :
    paramsCount x ps = 0 ↔ ∀ e ∈ ps, x ∉ e.1 ∧ x ∉ e.2 := by
  rw [paramsCount, List.sum_eq_zero_iff_forall_eq_nat]
  simp only [List.mem_map, forall_exists_index, and_imp, forall_apply_eq_imp_iff₂,
    Nat.add_eq_zero_iff, List.count_eq_zero]

/-- There are separators neither in the key nor in the value of a piece. -/
theorem param_separators {text : Bytes} {e : Bytes × Bytes} (he : e ∈ (pieces text).map param) :
    Cookie.equals ∉ e.1 ∧ ampersand ∉ e.1 ∧ ampersand ∉ e.2 := by
  have hpieces : ∀ (text : Bytes), ∀ piece ∈ pieces text, ampersand ∉ piece := by
    intro text
    induction text with
    | nil => simp [pieces]
    | cons c text ih =>
      intro piece hpiece
      by_cases hc : c = ampersand
      · rw [pieces, if_pos hc] at hpiece
        rcases List.mem_cons.mp hpiece with rfl | hpiece
        · simp
        · exact ih piece hpiece
      · obtain ⟨first, ps, heq, hcases⟩ := pieces_cons hc text
        rw [heq] at hpiece
        rcases List.mem_cons.mp hpiece with rfl | hpiece
        · rw [List.mem_cons, not_or]
          refine ⟨Ne.symm hc, ?_⟩
          rcases hcases with ⟨-, rfl, -⟩ | hps
          · simp
          · exact ih first (by rw [hps]; simp)
        · rcases hcases with ⟨-, -, rfl⟩ | hps
          · cases hpiece
          · exact ih piece (by rw [hps]; simp [hpiece])
  obtain ⟨piece, hpiece, rfl⟩ := List.mem_map.mp he
  have hamp := hpieces text piece hpiece
  refine ⟨fun hin => ?_, fun hin => hamp ?_, fun hin => hamp ?_⟩
  · have := List.mem_takeWhile_imp hin
    simp at this
  · exact (List.takeWhile_sublist _).mem hin
  · exact (List.dropWhile_sublist _).mem ((List.drop_sublist _ _).mem hin)

/-! ## The step -/

namespace RequestLineStep

variable {H : Type}

/-- The parameters, one after the other. -/
def addParams (ps : List (Bytes × Bytes)) (request : Request H) : Request H :=
  { request with own := { request.own with
    query_ := applyAll (fun e l => insertNew e.1 e.2 l) ps request.own.query_ } }

/-- One piece in front of a separator. -/
theorem queryBody_piece {piece : Bytes} (hamp : ampersand ∉ piece) (hspace : SP ∉ piece) {c : UInt8}
    (hc : c = ampersand ∨ c = SP ∧ piece ≠ []) (request : Request H) (xs : Bytes) :
    queryBody request (piece ++ c :: xs) = .inr
      ((Update.query (param piece).1 (param piece).2).apply request,
        if c = ampersand then xs else c :: xs) := by
  have hcur : current (piece ++ c :: xs) ≠ SP := by
    rcases hc with rfl | ⟨rfl, hne⟩
    · cases piece with
      | nil =>
        rw [List.nil_append, current_cons]
        decide
      | cons d piece =>
        rintro heq
        exact hspace (List.mem_cons.mpr (.inl heq.symm))
    · cases piece with
      | nil => exact absurd rfl hne
      | cons d piece =>
        rintro heq
        exact hspace (List.mem_cons.mpr (.inl heq.symm))
  have hsep : c = SP ∨ c = ampersand := hc.elim .inr fun h => .inl h.1
  by_cases heq : Cookie.equals ∈ piece
  · -- a key and a value
    obtain ⟨name, value, rfl, hname⟩ := List.eq_append_cons_of_mem heq
    have hkey : match_until [Cookie.equals, SP, ampersand]
        (name ++ Cookie.equals :: (value ++ c :: xs)) =
          some (name, Cookie.equals :: (value ++ c :: xs)) := by
      refine match_until_token (by simp) (fun x hx hin => ?_) _
      have hmem : x ∈ name ++ Cookie.equals :: value := List.mem_append_left _ hx
      simp only [List.mem_cons, List.not_mem_nil, or_false] at hin
      rcases hin with rfl | rfl | rfl
      · exact hname hx
      · exact hspace hmem
      · exact hamp hmem
    have hvalue : match_until [SP, ampersand] (value ++ c :: xs) = some (value, c :: xs) := by
      refine match_until_token (by simpa using hsep) (fun x hx hin => ?_) _
      have hmem : x ∈ name ++ Cookie.equals :: value := by simp [hx]
      simp only [List.mem_cons, List.not_mem_nil, or_false] at hin
      rcases hin with rfl | rfl
      · exact hspace hmem
      · exact hamp hmem
    rw [List.append_assoc, List.cons_append] at hcur ⊢
    simp only [queryBody, if_neg hcur, hkey, current_cons, List.drop_succ_cons, List.drop_zero,
      hvalue, param_pair hname, show Cookie.equals ≠ SP by decide,
      show Cookie.equals ≠ ampersand by decide, if_false]
    split <;> rfl
  · -- a key alone
    have hkey : match_until [Cookie.equals, SP, ampersand] (piece ++ c :: xs) = some (piece, c :: xs) := by
      refine match_until_token (by simpa using .inr hsep) (fun x hx hin => ?_) _
      simp only [List.mem_cons, List.not_mem_nil, or_false] at hin
      rcases hin with rfl | rfl | rfl
      · exact heq hx
      · exact hspace hx
      · exact hamp hx
    have hall : ∀ d ∈ piece, decide (d ≠ Cookie.equals) = true := fun d hd => by
      rw [decide_eq_true_iff]
      rintro rfl
      exact heq hd
    have hparam : param piece = (piece, []) := by
      rw [param, List.takeWhile_eq_self_iff.mpr hall, List.dropWhile_eq_nil_iff.mpr hall]
      rfl
    simp only [queryBody, if_neg hcur, hkey, current_cons, hparam]
    rcases hsep with rfl | rfl
    · rfl
    · rfl

/-- **The parameters of a query** are those of its pieces. -/
theorem query_read {text : Bytes} (hspace : SP ∉ text) (request : Request H) (xs : Bytes) :
    query request (text ++ SP :: xs) =
      ⟨.Next, addParams ((pieces text).map param) request, SP :: xs⟩ := by
  by_cases hnil : text = []
  · subst hnil
    rw [query, Loop.run_eq queryBody_shrinks]
    simp [queryBody, pieces, addParams]
  · by_cases hamp : ampersand ∈ text
    · obtain ⟨piece, text', rfl, hpiece⟩ := List.eq_append_cons_of_mem hamp
      have hspace' : SP ∉ piece := fun hin => hspace (by simp [hin])
      have hrest : SP ∉ text' := fun hin => hspace (by simp [hin])
      have ih := query_read hrest ((Update.query (param piece).1 (param piece).2).apply request) xs
      rw [List.append_assoc, List.cons_append, query, Loop.run_eq queryBody_shrinks,
        queryBody_piece hpiece hspace' (.inl rfl), if_pos rfl, pieces_separated hpiece]
      exact ih
    · have hend : query ((Update.query (param text).1 (param text).2).apply request) (SP :: xs) =
          ⟨.Next, (Update.query (param text).1 (param text).2).apply request, SP :: xs⟩ := by
        rw [query, Loop.run_eq queryBody_shrinks]
        simp [queryBody]
      rw [query, Loop.run_eq queryBody_shrinks, queryBody_piece hamp hspace (.inr ⟨rfl, hnil⟩),
        if_neg (by decide), pieces_single hamp hnil]
      exact hend
termination_by text.length
decreasing_by subst_vars; simp; omega

/-- The resource in a target, and its query text. -/
def targetResource (target : Bytes) : Bytes := target.takeWhile (· ≠ questionMark)
def targetQuery (target : Bytes) : Bytes := (target.dropWhile (· ≠ questionMark)).drop 1

/-- What the step has in the message behind the target. -/
def targetRead (m : Method) (target : Bytes) (request : Request H) : Request H :=
  { request with own := { request.own with
    method_ := m
    resource_ := targetResource target
    query_ := applyAll (fun e l => insertNew e.1 e.2 l) ((pieces (targetQuery target)).map param)
      request.own.query_ } }

theorem method_read {text : Bytes} {m : Method} (htext : SP ∉ text)
    (hlookup : httpMethods.lookup text = some m) (request : Request H) (xs : Bytes) :
    method request (text ++ SP :: xs) = ⟨.Next, (Update.method m).apply request, xs⟩ := by
  have htok : ∀ x ∈ text, x ∉ [SP] := fun x hx hin => by
    rw [List.mem_singleton] at hin
    exact htext (hin ▸ hx)
  simp [method, match_until_token (show SP ∈ [SP] by simp) htok, hlookup]

theorem resource_read {target : Bytes} (hspace : SP ∉ target) (request : Request H) (xs : Bytes) :
    resource request (target ++ SP :: xs) =
      ⟨.Next, (Update.resource (targetResource target)).apply request,
        targetQuery target ++ SP :: xs⟩ := by
  have hsplit := List.takeWhile_append_dropWhile (p := fun c => decide (c ≠ questionMark)) (l := target)
  have htok : ∀ x ∈ targetResource target, x ∉ [questionMark, SP] := fun x hx hin => by
    simp only [List.mem_cons, List.not_mem_nil, or_false] at hin
    rcases hin with rfl | rfl
    · have := List.mem_takeWhile_imp hx
      simp at this
    · exact hspace ((List.takeWhile_sublist _).mem hx)
  unfold resource
  cases hd : target.dropWhile (· ≠ questionMark) with
  | nil =>
    have hself : targetResource target = target := by
      rw [hd, List.append_nil] at hsplit
      exact hsplit
    rw [hself] at htok
    have hquery : targetQuery target = [] := by rw [targetQuery, hd]; rfl
    simp [match_until_token (show SP ∈ [questionMark, SP] by simp) htok, hself, hquery,
      show SP ≠ questionMark by decide]
  | cons c text =>
    have hnot := List.head?_dropWhile_not (fun c => decide (c ≠ questionMark)) target
    rw [hd] at hnot
    obtain rfl : c = questionMark := by simpa using hnot
    have htarget : target ++ SP :: xs = targetResource target ++ questionMark :: (text ++ SP :: xs) := by
      conv_lhs => rw [← hsplit, hd]
      simp [targetResource]
    have hquery : targetQuery target = text := by rw [targetQuery, hd]; rfl
    rw [htarget, hquery]
    simp [match_until_token (show questionMark ∈ [questionMark, SP] by simp) htok]

/-- **A request line is read up to the space behind its target.** -/
theorem apply_target {text : Bytes} {m : Method} (htext : SP ∉ text)
    (hlookup : httpMethods.lookup text = some m) {target : Bytes} (hspace : SP ∉ target)
    (request : Request H) (xs : Bytes) :
    apply request (text ++ SP :: (target ++ SP :: xs)) =
      revert State.Next (fun _ _ => version (targetRead m target request) (SP :: xs)) request
        (text ++ SP :: (target ++ SP :: xs)) := by
  have hquery : SP ∉ targetQuery target := fun hin =>
    hspace ((List.dropWhile_sublist _).mem ((List.drop_sublist _ _).mem hin))
  have hparts : andThen State.Next (andThen State.Next (andThen State.Next method resource) query)
      version request (text ++ SP :: (target ++ SP :: xs)) =
        version (targetRead m target request) (SP :: xs) := by
    simp only [andThen, method_read htext hlookup, resource_read hspace, query_read hquery, if_true]
    rfl
  unfold apply revert
  rw [hparts]

theorem version_own (request : Request H) (xs : Bytes) :
    (version request xs).state.own = request.own := by
  unfold version
  repeat' split
  all_goals rfl

theorem version_http11 (request : Request H) (xs : Bytes) :
    version request (SP :: (lit "HTTP/1.1" ++ CR :: LF :: xs)) =
      ⟨.Next, (Update.version .Http11).apply request, xs⟩ := by
  have hline : OneLine (lit "HTTP/1.1") := by decide
  have h₀ : strncmpEq (lit "HTTP/1.1") (lit "HTTP/1.0") = false := by decide
  have h₁ : strncmpEq (lit "HTTP/1.1") (lit "HTTP/1.1") = true := by decide
  simp [version, hline.untilEol xs, h₀, h₁]

end RequestLineStep

end Pistache.Http
