import Pistache.Rest.Router

/-!
# Sanitized resources

`sanitizeResource` on every resource: runs of slashes collapse, a slash at the end goes, and the
first character goes too, whatever it is.

Principal results:

* `sanitized_iff` — the segments of a resource come through if and only if it begins with a slash.
* `path_aliases` — a resource without the slash takes the place of another one.
-/

set_option autoImplicit false

namespace Pistache.Rest

/-! ## Segments -/

/-- The segments of a resource that are not empty. -/
def resourceSegments (path : Bytes) : List Bytes :=
  (path.splitOn slash).filter fun segment => !segment.isEmpty

/-- Segments joined by single slashes. -/
def joined (parts : List Bytes) : Bytes := [slash].intercalate parts

theorem not_mem_splitOn : ∀ (path : Bytes), ∀ x ∈ path.splitOn slash, slash ∉ x
  | [], x, hx => by simp_all
  | c :: path, x, hx => by
    have ih := not_mem_splitOn path
    rw [List.splitOn_cons_eq_if_modifyHead] at hx
    by_cases hc : c = slash
    · rw [if_pos (by simpa using hc), List.mem_cons] at hx
      rcases hx with rfl | hx
      · simp
      · exact ih x hx
    · obtain ⟨first, pieces, hp⟩ := List.exists_cons_of_ne_nil (List.splitOn_ne_nil slash path)
      rw [if_neg (by simpa using hc), hp, List.modifyHead_cons, List.mem_cons] at hx
      rw [hp] at ih
      rcases hx with rfl | hx
      · rw [List.mem_cons, not_or]
        exact ⟨Ne.symm hc, ih first List.mem_cons_self⟩
      · exact ih x (List.mem_cons_of_mem first hx)

theorem resourceSegments_plain {path segment : Bytes} (h : segment ∈ resourceSegments path) :
    segment ≠ [] ∧ slash ∉ segment := by
  obtain ⟨hmem, hne⟩ := List.mem_filter.mp h
  exact ⟨fun hnil => by simp [hnil] at hne, not_mem_splitOn path segment hmem⟩

theorem joined_cons (x : Bytes) {parts : List Bytes} (h : parts ≠ []) :
    joined (x :: parts) = x ++ slash :: joined parts := by
  obtain ⟨y, parts, rfl⟩ := List.exists_cons_of_ne_nil h
  simp [joined]

@[simp] theorem joined_nil : joined [] = [] := rfl
@[simp] theorem joined_single (x : Bytes) : joined [x] = x := by simp [joined]

theorem joined_ne_nil {parts : List Bytes} (h : parts ≠ []) (hne : ∀ x ∈ parts, x ≠ []) :
    joined parts ≠ [] := by
  obtain ⟨x, parts, rfl⟩ := List.exists_cons_of_ne_nil h
  have hx := hne x List.mem_cons_self
  by_cases hparts : parts = []
  · simpa [hparts] using hx
  · simp [joined_cons x hparts]

/-- Joined segments do not end in a slash. -/
theorem joined_last : ∀ {parts : List Bytes}, (∀ x ∈ parts, x ≠ [] ∧ slash ∉ x) →
    (joined parts).getLast? ≠ some slash
  | [], _ => by simp
  | [x], h => by
    rw [joined_single]
    exact fun hlast => (h x List.mem_cons_self).2 (List.mem_of_getLast? hlast)
  | x :: y :: parts, h => by
    have hrest := joined_last fun z (hz : z ∈ y :: parts) => h z (List.mem_cons_of_mem x hz)
    have hne : joined (y :: parts) ≠ [] :=
      joined_ne_nil (by simp) fun z hz => (h z (List.mem_cons_of_mem x hz)).1
    rw [joined_cons x (by simp), List.getLast?_append, List.getLast?_cons]
    rw [List.getLast?_eq_some_getLast hne] at hrest ⊢
    simpa using hrest

/-- Segments are found again in what they have been joined to. -/
theorem joined_injective {a b : List Bytes} (ha : ∀ x ∈ a, x ≠ [] ∧ slash ∉ x)
    (hb : ∀ x ∈ b, x ≠ [] ∧ slash ∉ x) (h : joined a = joined b) : a = b := by
  have hnil : ∀ {c : List Bytes}, (∀ x ∈ c, x ≠ [] ∧ slash ∉ x) → (joined c = [] ↔ c = []) :=
    fun hc => ⟨fun hnil => by_contra fun hne => joined_ne_nil hne (fun x hx => (hc x hx).1) hnil,
      fun hnil => by rw [hnil, joined_nil]⟩
  by_cases hzero : a = []
  · subst hzero
    exact ((hnil hb).mp h.symm).symm
  · have hzero' : b ≠ [] := fun hb' => hzero ((hnil ha).mp (h.trans ((hnil hb).mpr hb')))
    calc a = (joined a).splitOn slash :=
          (List.splitOn_intercalate slash (fun x hx => (ha x hx).2) hzero).symm
      _ = (joined b).splitOn slash := by rw [h]
      _ = b := List.splitOn_intercalate slash (fun x hx => (hb x hx).2) hzero'

/-! ## The loop -/

/-- `sanitizeResource`'s loop behind a character; `behind` says that it was a slash. -/
def collapseFrom (behind : Bool) : Bytes → Bytes
  | [] => []
  | c :: path =>
    if c = slash ∧ behind then collapseFrom behind path
    else c :: collapseFrom (c = slash) path

theorem collapseSlashes_eq (path : Bytes) : collapseSlashes path = collapseFrom false path := by
  have hloop : ∀ (path dup : Bytes) (behind : Bool), (behind = true ↔ dup.getLast? = some slash) →
      path.foldl (fun dup c =>
        if c ≠ slash ∨ dup = [] ∨ dup.getLast? ≠ some slash then dup ++ [c] else dup) dup =
      dup ++ collapseFrom behind path := by
    intro path
    induction path with
    | nil => intro dup behind _; simp [collapseFrom]
    | cons c path ih =>
      intro dup behind hbehind
      rw [List.foldl_cons, collapseFrom]
      by_cases hc : c = slash ∧ behind = true
      · have hlast := hbehind.mp hc.2
        have hne : dup ≠ [] := fun hnil => by simp [hnil] at hlast
        rw [if_neg (by simp [hc.1, hne, hlast]), if_pos hc]
        exact ih dup behind hbehind
      · have hkeep : c ≠ slash ∨ dup = [] ∨ dup.getLast? ≠ some slash := by
          by_cases hslash : c = slash
          · exact .inr (.inr fun hlast => hc ⟨hslash, hbehind.mpr hlast⟩)
          · exact .inl hslash
        rw [if_pos hkeep, if_neg hc, ih (dup ++ [c]) (c = slash) (by simp)]
        simp
  have hstart := hloop path [] false (by simp)
  rwa [List.nil_append] at hstart

/-- A piece without a slash. -/
theorem collapseFrom_piece {x : Bytes} (h : slash ∉ x) (hne : x ≠ []) (behind : Bool)
    (rest : Bytes) : collapseFrom behind (x ++ rest) = x ++ collapseFrom false rest := by
  induction x generalizing behind with
  | nil => exact absurd rfl hne
  | cons c x ih =>
    rw [List.mem_cons, not_or] at h
    rw [List.cons_append, collapseFrom, if_neg fun hc => h.1 hc.1.symm,
      show decide (c = slash) = false from decide_eq_false (Ne.symm h.1)]
    cases x with
    | nil => rfl
    | cons d x => rw [ih h.2 (by simp), ← List.cons_append]

/-- **What the loop leaves of pieces** behind a slash: those that are not empty, joined, and
perhaps a slash behind them. -/
theorem collapseFrom_pieces : ∀ {pieces : List Bytes}, (∀ x ∈ pieces, slash ∉ x) → pieces ≠ [] →
    collapseFrom true (joined pieces) = joined (pieces.filter fun x => !x.isEmpty) ∨
      pieces.filter (fun x => !x.isEmpty) ≠ [] ∧
        collapseFrom true (joined pieces) = joined (pieces.filter fun x => !x.isEmpty) ++ [slash]
  | [], _, hne => absurd rfl hne
  | [x], h, _ => by
    left
    by_cases hx : x = []
    · simp [hx, collapseFrom]
    · have hpiece := collapseFrom_piece (h x List.mem_cons_self) hx true []
      have hfilter : [x].filter (fun x => !x.isEmpty) = [x] := by simp [hx]
      rw [List.append_nil] at hpiece
      rw [hfilter, joined_single, hpiece, collapseFrom, List.append_nil]
  | x :: y :: pieces, h, _ => by
    have ih := collapseFrom_pieces (fun z (hz : z ∈ y :: pieces) => h z (List.mem_cons_of_mem x hz))
      (by simp)
    rw [joined_cons x (by simp)]
    by_cases hx : x = []
    · have hslash : collapseFrom true ([] ++ slash :: joined (y :: pieces)) =
          collapseFrom true (joined (y :: pieces)) := by simp [collapseFrom]
      rw [hx, hslash, List.filter_cons, if_neg (by simp)]
      exact ih
    · have hloop : collapseFrom true (x ++ slash :: joined (y :: pieces)) =
          x ++ slash :: collapseFrom true (joined (y :: pieces)) := by
        rw [collapseFrom_piece (h x List.mem_cons_self) hx]
        simp [collapseFrom]
      rw [hloop, List.filter_cons, if_pos (by simpa using hx)]
      generalize hparts : (y :: pieces).filter (fun x => !x.isEmpty) = parts at ih
      by_cases hnil : parts = []
      · -- nothing is left behind the piece but its slash
        right
        refine ⟨by simp, ?_⟩
        rcases ih with ih | ⟨hne, -⟩
        · rw [ih, hnil]
          simp
        · exact absurd hnil hne
      · rw [joined_cons x hnil]
        rcases ih with ih | ⟨-, ih⟩
        · exact .inl (by rw [ih])
        · exact .inr ⟨by simp, by rw [ih]; simp⟩

/-- The loop behind a slash, on any text. -/
theorem collapseFrom_text (path : Bytes) :
    collapseFrom true path = joined (resourceSegments path) ∨
      resourceSegments path ≠ [] ∧
        collapseFrom true path = joined (resourceSegments path) ++ [slash] := by
  have hpieces := collapseFrom_pieces (not_mem_splitOn path) (List.splitOn_ne_nil slash path)
  have hall : joined (path.splitOn slash) = path := List.intercalate_splitOn slash
  rwa [hall] at hpieces

/-! ## What the routes are found by -/

/-- What `sanitizeResource` is for: it gives the segments joined by single slashes, the trees
take these and no others, and no other resource with a slash in front is taken for it. -/
structure Sanitized (path : Bytes) : Prop where
  result : sanitizeResource path = joined (resourceSegments path)
  taken : segments (sanitizeResource path) = resourceSegments path
  alike : ∀ other : Bytes, other.head? = some slash →
    (sanitizeResource path = sanitizeResource other ↔
      resourceSegments path = resourceSegments other)

/-- A slash in front. -/
theorem sanitizeResource_slash (path : Bytes) :
    sanitizeResource (slash :: path) = joined (resourceSegments (slash :: path)) := by
  have hsegments : resourceSegments (slash :: path) = resourceSegments path := by
    simp [resourceSegments, List.splitOn_cons_eq_if_modifyHead]
  have hdup : collapseSlashes (slash :: path) = slash :: collapseFrom true path := by
    simp [collapseSlashes_eq, collapseFrom]
  have hlast := joined_last fun x (hx : x ∈ resourceSegments path) => resourceSegments_plain hx
  rw [hsegments, sanitizeResource, hdup, List.getLast?_cons]
  rcases collapseFrom_text path with htext | ⟨-, htext⟩
  · rw [htext]
    cases hj : (joined (resourceSegments path)).getLast? with
    | none =>
      rw [List.getLast?_eq_none_iff] at hj
      simp [hj]
    | some c =>
      have hc : c ≠ slash := fun hc => hlast (by rw [hj, hc])
      simp [hc]
  · rw [htext]
    simp

/-- Another character in front is lost. -/
theorem sanitizeResource_lost {c : UInt8} (hc : c ≠ slash) (path : Bytes) :
    sanitizeResource (c :: path) ≠ joined (resourceSegments (c :: path)) := by
  have hdup : collapseSlashes (c :: path) = collapseFrom true (c :: path) := by
    simp [collapseSlashes_eq, collapseFrom, hc]
  have hlast := joined_last fun x (hx : x ∈ resourceSegments (c :: path)) =>
    resourceSegments_plain hx
  have hpos : (collapseFrom true (c :: path)).length ≠ 0 := by simp [collapseFrom, hc]
  rw [sanitizeResource, hdup]
  intro heq
  have hlen := congrArg List.length heq
  rcases collapseFrom_text (c :: path) with htext | ⟨-, htext⟩
  · rw [htext] at hlen hpos
    rw [if_neg hlast, List.length_drop] at hlen
    omega
  · have hpos' : (joined (resourceSegments (c :: path))).length ≠ 0 := fun hzero => by
      rw [List.length_eq_zero_iff] at hzero
      rw [hzero, List.nil_append] at htext
      -- the text begins with the character
      have hhead := congrArg List.head? htext
      simp [collapseFrom, hc] at hhead
    rw [htext, if_pos (by simp), List.length_take, List.length_drop, List.length_append] at hlen
    simp only [List.length_singleton] at hlen
    omega

/-- The tree takes joined segments apart again. -/
theorem segments_joined : ∀ {parts : List Bytes}, (∀ x ∈ parts, x ≠ [] ∧ slash ∉ x) →
    segments (joined parts) = parts
  | [], _ => rfl
  | [x], h => by
    obtain ⟨hne, hslash⟩ := h x List.mem_cons_self
    have hall : ∀ c ∈ x, decide (c ≠ slash) = true := fun c hc => by
      rw [decide_eq_true_iff]
      rintro rfl
      exact hslash hc
    have hsegment : currentSegment x = x := List.takeWhile_eq_self_iff.mpr hall
    have hlower : lowerPath x = [] := by
      rw [lowerPath, List.dropWhile_eq_nil_iff.mpr hall, List.drop_nil]
    rw [joined_single, segments_of_nonempty hne, hsegment, hlower]
    rfl
  | x :: y :: parts, h => by
    obtain ⟨-, hslash⟩ := h x List.mem_cons_self
    have hall : ∀ c ∈ x, decide (c ≠ slash) = true := fun c hc => by
      rw [decide_eq_true_iff]
      rintro rfl
      exact hslash hc
    have ih := segments_joined fun z (hz : z ∈ y :: parts) => h z (List.mem_cons_of_mem x hz)
    have hsegment : currentSegment (x ++ slash :: joined (y :: parts)) = x := by
      rw [currentSegment, List.takeWhile_append_of_pos hall]
      simp
    have hlower : lowerPath (x ++ slash :: joined (y :: parts)) = joined (y :: parts) := by
      rw [lowerPath, List.dropWhile_append_of_pos hall]
      simp
    rw [joined_cons x (by simp), segments_of_nonempty (by simp), hsegment, hlower, ih]

/-- **A resource is sanitized** if and only if it begins with a slash. -/
theorem sanitized_iff (path : Bytes) (hne : path ≠ []) :
    Sanitized path ↔ path.head? = some slash := by
  have hslash : ∀ path : Bytes, path.head? = some slash →
      sanitizeResource path = joined (resourceSegments path) := by
    intro path hhead
    obtain ⟨rest, rfl⟩ := List.head?_eq_some_iff.mp hhead
    exact sanitizeResource_slash rest
  constructor
  · intro h
    obtain ⟨c, rest, rfl⟩ := List.exists_cons_of_ne_nil hne
    by_contra hc
    exact sanitizeResource_lost (by simpa using hc) rest h.result
  · intro hhead
    have hresult := hslash path hhead
    have hplain := fun x (hx : x ∈ resourceSegments path) => resourceSegments_plain hx
    refine ⟨hresult, by rw [hresult, segments_joined hplain], fun other hother => ?_⟩
    rw [hresult, hslash other hother]
    exact ⟨joined_injective hplain fun x hx => resourceSegments_plain hx, fun h => by rw [h]⟩

theorem sanitized_twice : Sanitized (lit "//path///to//bar/") :=
  (sanitized_iff (lit "//path///to//bar/") (by decide)).mpr (by decide)

/-- `path` is sanitized to `ath`, as `/ath` is. -/
theorem path_aliases : ¬Sanitized (lit "path") ∧
    sanitizeResource (lit "path") = sanitizeResource (lit "/ath") := by
  refine ⟨fun h => ?_, by decide⟩
  have hresult := h.result
  revert hresult
  decide

end Pistache.Rest
