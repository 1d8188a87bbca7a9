import Pistache.Rest.Pattern

/-!
# What a lookup finds

`find` is the lookup without its vectors: the first of the children's answers in the order in
which they are tried, and at the end of the path the route at the end of the first optionals.

Principal results: `answers_findSegments` — `findRoute` gives what `find` says with the bindings
of the pattern found, and a failed attempt has taken its own bindings off again;
`find_eq_some`, `find_ne_none` — what `find` says of the patterns of the tree; `lookup` — when a
lookup is right about the patterns that were added.
-/

set_option autoImplicit false

namespace Pistache.Rest

open Backtrack SegmentTreeNode

/-! ## Patterns and paths -/

/-- A segment of a pattern takes a segment of a path. -/
def Segment.Takes : Segment → Bytes → Prop
  | .fixed text, s => s = text
  | _, _ => True

/-- A pattern matches a path segment by segment; when the path has ended only optionals may
be left. -/
def Matches : Pattern → List Bytes → Prop
  | [], [] => True
  | [], _ :: _ => False
  | .optional _ :: K, [] => Matches K []
  | _ :: _, [] => False
  | k :: K, s :: p => k.Takes s ∧ Matches K p

/-- The parameters of a pattern bound to a path, in order. -/
def params : Pattern → List Bytes → List TypedParam
  | .param name :: K, s :: p => ⟨name, s⟩ :: params K p
  | .optional name :: K, s :: p => ⟨name, s⟩ :: params K p
  | _ :: K, _ :: p => params K p
  | _, _ => []

def splats : Pattern → List Bytes → List TypedParam
  | .splat :: K, s :: p => ⟨s, s⟩ :: splats K p
  | _ :: K, _ :: p => splats K p
  | _, _ => []

/-- Only optionals. -/
def AllOptional (K : Pattern) : Prop := ∀ k ∈ K, ∃ name, k = Segment.optional name

theorem matches_nil {K : Pattern} : Matches K [] ↔ AllOptional K := by
  induction K with
  | nil => simp [Matches, AllOptional]
  | cons k K ih => cases k <;> simp_all [Matches, AllOptional]

@[simp] theorem params_nil (K : Pattern) : params K [] = [] := by
  cases K with
  | nil => rfl
  | cons k K => cases k <;> rfl

@[simp] theorem splats_nil (K : Pattern) : splats K [] = [] := by
  cases K with
  | nil => rfl
  | cons k K => cases k <;> rfl

/-- A pattern matches a path if its first segments take those of the path and the others are
optional. -/
theorem matches_iff {K : Pattern} {p : List Bytes} :
    Matches K p ↔ ∃ A B, K = A ++ B ∧ List.Forall₂ Segment.Takes A p ∧ AllOptional B := by
  induction K generalizing p with
  | nil =>
    cases p with
    | nil => exact ⟨fun _ => ⟨[], [], rfl, .nil, by simp [AllOptional]⟩, fun _ => trivial⟩
    | cons s p =>
      refine ⟨False.elim, ?_⟩
      rintro ⟨A, B, hAB, hA, -⟩
      obtain ⟨rfl, -⟩ := List.append_eq_nil_iff.mp hAB.symm
      cases hA
  | cons k K ih =>
    cases p with
    | nil =>
      rw [matches_nil]
      refine ⟨fun h => ⟨[], k :: K, rfl, .nil, h⟩, ?_⟩
      rintro ⟨A, B, hAB, hA, hB⟩
      cases hA
      exact hAB ▸ hB
    | cons s p =>
      have hcons : Matches (k :: K) (s :: p) ↔ k.Takes s ∧ Matches K p := by
        cases k <;> rfl
      rw [hcons, ih]
      constructor
      · rintro ⟨hk, A, B, rfl, hA, hB⟩
        exact ⟨k :: A, B, rfl, .cons hk hA, hB⟩
      · rintro ⟨A, B, hAB, hA, hB⟩
        cases hA with
        | cons hk hA =>
          obtain ⟨rfl, rfl⟩ := List.cons.inj hAB
          exact ⟨hk, _, B, rfl, hA, hB⟩

namespace SegmentTreeNode

variable {R : Type}

/-! ## The lookup without vectors -/

/-- The route a lookup takes when the path has ended, with the optionals on the way to it. -/
def ending : SegmentTreeNode R → Option (Pattern × R)
  | ⟨_, _, ⟨name, child⟩ :: _, _, _⟩ => child.ending.map fun e => (.optional name :: e.1, e.2)
  | ⟨_, _, [], _, route⟩ => route.map fun r => ([], r)

/-- The children that are tried for a segment, in order. -/
def heads (segment : Bytes) (n : SegmentTreeNode R) : List (Segment × SegmentTreeNode R) :=
  (n.fixed.dlookup segment).toList.map (fun c => (.fixed segment, c)) ++
    n.param.map (fun entry => (.param entry.1, entry.2)) ++
    n.optional.map (fun entry => (.optional entry.1, entry.2)) ++
    n.splat.toList.map fun c => (.splat, c)

def find : List Bytes → SegmentTreeNode R → Option (Pattern × R)
  | [], n => n.ending
  | segment :: lower, n =>
    (heads segment n).findSome? fun h => (find lower h.2).map fun e => (h.1 :: e.1, e.2)

/-- What is found, with the bindings of its pattern behind those already made. -/
def foundAt (p : List Bytes) (v : Vectors) (e : Pattern × R) : Found R :=
  ⟨e.2, v.params ++ Rest.params e.1 p, v.splats ++ Rest.splats e.1 p⟩

theorem answers_findEnd : ∀ n : SegmentTreeNode R,
    Answers n.findEnd (fun v => n.ending.map (foundAt [] v))
  | ⟨_, _, ⟨name, child⟩ :: _, _, _⟩ => by
    refine (answers_findEnd child).congr fun v => ?_
    rw [ending, Option.map_map]
    congr 1
    funext e
    simp [foundAt]
  | ⟨_, _, [], _, none⟩ => Answers.fail
  | ⟨_, _, [], _, some route⟩ => by
    refine ⟨fun v => ?_, fun v h => ?_⟩
    · simp [findEnd, ending, foundAt]
    · simp [ending] at h

theorem foundAt_pushParam (name s : Bytes) (p : List Bytes) (v : Vectors) (e : Pattern × R) :
    foundAt p (v.pushParam ⟨name, s⟩) e = foundAt (s :: p) v (.param name :: e.1, e.2) := by
  simp [foundAt, Vectors.pushParam, Rest.params, Rest.splats]

theorem foundAt_pushOptional (name s : Bytes) (p : List Bytes) (v : Vectors) (e : Pattern × R) :
    foundAt p (v.pushParam ⟨name, s⟩) e = foundAt (s :: p) v (.optional name :: e.1, e.2) := by
  simp [foundAt, Vectors.pushParam, Rest.params, Rest.splats]

theorem foundAt_pushSplat (s : Bytes) (p : List Bytes) (v : Vectors) (e : Pattern × R) :
    foundAt p (v.pushSplat ⟨s, s⟩) e = foundAt (s :: p) v (.splat :: e.1, e.2) := by
  simp [foundAt, Vectors.pushSplat, Rest.params, Rest.splats]

theorem foundAt_fixed (s : Bytes) (p : List Bytes) (v : Vectors) (e : Pattern × R) :
    foundAt p v e = foundAt (s :: p) v (.fixed s :: e.1, e.2) := by
  simp [foundAt, Rest.params, Rest.splats]

theorem popParam_pushParam (param : TypedParam) (v : Vectors) :
    (v.pushParam param).popParam = v := by
  simp [Vectors.pushParam, Vectors.popParam]

theorem popSplat_pushSplat (splat : TypedParam) (v : Vectors) :
    (v.pushSplat splat).popSplat = v := by
  simp [Vectors.pushSplat, Vectors.popSplat]

/-- The answer of one child. -/
def childAnswer (segment : Bytes) (lower : List Bytes) (v : Vectors)
    (h : Segment × SegmentTreeNode R) : Option (Found R) :=
  (find lower h.2).map fun e => foundAt (segment :: lower) v (h.1 :: e.1, e.2)

theorem find_cons_map (segment : Bytes) (lower : List Bytes) (n : SegmentTreeNode R)
    (v : Vectors) : (find (segment :: lower) n).map (foundAt (segment :: lower) v) =
      (heads segment n).findSome? (childAnswer segment lower v) := by
  rw [find, List.map_findSome?]
  congr 1
  funext h
  simp only [Function.comp, childAnswer, Option.map_map]
  rfl

/-- The four attempts of one node. -/
theorem findSegments_cons (segment : Bytes) (lower : List Bytes) (n : SegmentTreeNode R) :
    findSegments (segment :: lower) n =
      ((((n.fixed.dlookup segment).elim Attempt.fail (findSegments lower)).orElse
        (Attempt.firstOf (fun entry => (findSegments lower entry.2).during
          (Vectors.pushParam ⟨entry.1, segment⟩) Vectors.popParam) n.param)).orElse
        (Attempt.firstOf (fun entry => ((findSegments lower entry.2).during
          (Vectors.pushParam ⟨entry.1, segment⟩) Vectors.popParam).orElse
            (findSegments lower entry.2)) n.optional)).orElse
        (n.splat.elim Attempt.fail fun child => (findSegments lower child).during
          (Vectors.pushSplat ⟨segment, segment⟩) Vectors.popSplat) := by
  rw [findSegments]
  cases n.fixed.dlookup segment <;> cases n.splat <;> rfl

/-- **`findRoute` gives what `find` says**, with the bindings of the pattern it says. -/
theorem answers_findSegments (p : List Bytes) : ∀ n : SegmentTreeNode R,
    Answers (findSegments p n) (fun v => (find p n).map (foundAt p v)) := by
  induction p with
  | nil => exact answers_findEnd
  | cons segment lower ih =>
    intro n
    have hfixed : Answers
        ((n.fixed.dlookup segment).elim Attempt.fail (findSegments lower))
        (fun v => ((n.fixed.dlookup segment).toList.map
          (fun c => (Segment.fixed segment, c))).findSome? (childAnswer segment lower v)) := by
      cases n.fixed.dlookup segment with
      | none => exact Answers.fail
      | some c =>
        refine (ih c).congr fun v => ?_
        simp [childAnswer, ← foundAt_fixed]
    have hparam := @Answers.firstOf _ _ _ _ _ n.param (fun entry _ =>
      (ih entry.2).during (popParam_pushParam ⟨entry.1, segment⟩))
    have hoptional := @Answers.firstOf _ _ _ _ _ n.optional (fun entry _ =>
      ((ih entry.2).during (popParam_pushParam ⟨entry.1, segment⟩)).orElse (ih entry.2))
    have hsplat : Answers
        (n.splat.elim Attempt.fail fun child => (findSegments lower child).during
          (Vectors.pushSplat ⟨segment, segment⟩) Vectors.popSplat)
        (fun v => (n.splat.toList.map (fun c => (Segment.splat, c))).findSome?
          (childAnswer segment lower v)) := by
      cases n.splat with
      | none => exact Answers.fail
      | some c =>
        refine ((ih c).during (popSplat_pushSplat ⟨segment, segment⟩)).congr fun v => ?_
        simp [childAnswer, ← foundAt_pushSplat]
    rw [findSegments_cons]
    refine (((hfixed.orElse hparam).orElse hoptional).orElse hsplat).congr fun v => ?_
    rw [find_cons_map, heads, List.findSome?_append, List.findSome?_append,
      List.findSome?_append]
    congr 2
    · congr 1
      rw [List.findSome?_map]
      congr 1
      funext entry
      simp only [Function.comp, childAnswer, ← foundAt_pushParam]
    · rw [List.findSome?_map]
      congr 1
      funext entry
      simp only [Function.comp, childAnswer, ← foundAt_pushOptional]
      -- an optional that failed with its binding fails without it
      cases find lower entry.2 <;> rfl

/-- A lookup of a path. -/
theorem findRoute_eq (n : SegmentTreeNode R) (path : Bytes) :
    n.findRoute path = (find (segments path) n).map fun e =>
      ⟨e.2, Rest.params e.1 (segments path), Rest.splats e.1 (segments path)⟩ := by
  unfold findRoute
  rw [(answers_findSegments (segments path) n).result]
  rfl

/-! ## What is found -/

theorem mem_heads {segment : Bytes} {n : SegmentTreeNode R} (hd : n.DistinctHere) {k : Segment}
    {c : SegmentTreeNode R} :
    (k, c) ∈ heads segment n ↔ k.Takes segment ∧ n.child k = some c := by
  unfold heads
  simp only [List.mem_append, List.mem_map, Option.mem_toList, Prod.mk.injEq]
  cases k with
  | fixed text =>
    constructor
    · rintro (((⟨d, hmem, heq, rfl⟩ | ⟨_, _, h, _⟩) | ⟨_, _, h, _⟩) | ⟨_, _, h, _⟩)
      · obtain rfl := Segment.fixed.inj heq
        exact ⟨rfl, hmem⟩
      all_goals cases h
    · rintro ⟨rfl, hc⟩
      exact .inl (.inl (.inl ⟨c, hc, rfl, rfl⟩))
  | param name =>
    constructor
    · rintro (((⟨_, _, h, _⟩ | ⟨entry, hmem, heq, rfl⟩) | ⟨_, _, h, _⟩) | ⟨_, _, h, _⟩)
      · cases h
      · obtain rfl := Segment.param.inj heq
        exact ⟨trivial, List.mem_dlookup (hd .param) hmem⟩
      all_goals cases h
    · rintro ⟨-, hc⟩
      exact .inl (.inl (.inr ⟨⟨name, c⟩, List.of_mem_dlookup hc, rfl, rfl⟩))
  | optional name =>
    constructor
    · rintro (((⟨_, _, h, _⟩ | ⟨_, _, h, _⟩) | ⟨entry, hmem, heq, rfl⟩) | ⟨_, _, h, _⟩)
      · cases h
      · cases h
      · obtain rfl := Segment.optional.inj heq
        exact ⟨trivial, List.mem_dlookup (hd .optional) hmem⟩
      · cases h
    · rintro ⟨-, hc⟩
      exact .inl (.inr ⟨⟨name, c⟩, List.of_mem_dlookup hc, rfl, rfl⟩)
  | splat =>
    constructor
    · rintro (((⟨_, _, h, _⟩ | ⟨_, _, h, _⟩) | ⟨_, _, h, _⟩) | ⟨d, hmem, -, rfl⟩)
      · cases h
      · cases h
      · cases h
      · exact ⟨trivial, hmem⟩
    · rintro ⟨-, hc⟩
      exact .inr ⟨c, hc, rfl, rfl⟩

/-- From a node along optionals that come first in their maps. -/
inductive FirstOptionals : SegmentTreeNode R → Pattern → SegmentTreeNode R → Prop where
  | here (n) : FirstOptionals n [] n
  | next {n c m name rest K} : n.optional = ⟨name, c⟩ :: rest → FirstOptionals c K m →
      FirstOptionals n (.optional name :: K) m

theorem ending_eq_some {K : Pattern} {r : R} : ∀ {n : SegmentTreeNode R},
    n.ending = some (K, r) ↔ ∃ m, FirstOptionals n K m ∧ m.optional = [] ∧ m.route = some r
  | ⟨fixed, param, ⟨name, child⟩ :: rest, splat, route⟩ => by
    rw [ending, Option.map_eq_some_iff]
    constructor
    · rintro ⟨⟨K', r'⟩, he, heq⟩
      obtain ⟨rfl, rfl⟩ := Prod.mk.inj heq
      obtain ⟨m, hfirst, hm⟩ := ending_eq_some.mp he
      exact ⟨m, .next rfl hfirst, hm⟩
    · rintro ⟨m, hfirst, hm⟩
      cases hfirst with
      | here => exact absurd hm.1 (by simp)
      | next hopt hfirst =>
        obtain ⟨heq, -⟩ := List.cons.inj hopt
        cases heq
        exact ⟨(_, r), ending_eq_some.mpr ⟨m, hfirst, hm⟩, rfl⟩
  | ⟨fixed, param, [], splat, route⟩ => by
    rw [ending, Option.map_eq_some_iff]
    constructor
    · rintro ⟨r', hr, heq⟩
      obtain ⟨rfl, rfl⟩ := Prod.mk.inj heq
      exact ⟨_, .here _, rfl, hr⟩
    · rintro ⟨m, hfirst, -, hr⟩
      cases hfirst with
      | here => exact ⟨r, hr, rfl⟩
      | next hopt => cases hopt

theorem FirstOptionals.allOptional {n m : SegmentTreeNode R} {K : Pattern}
    (h : FirstOptionals n K m) : AllOptional K := by
  induction h with
  | here => simp [AllOptional]
  | next hopt _ ih =>
    intro k hk
    rcases List.mem_cons.mp hk with rfl | hk
    · exact ⟨_, rfl⟩
    · exact ih k hk

theorem FirstOptionals.nodeAt {n m : SegmentTreeNode R} {K : Pattern}
    (h : FirstOptionals n K m) : nodeAt K n = some m := by
  induction h with
  | here => rfl
  | @next n c m name rest K hopt _ ih =>
    have hc : n.child (.optional name) = some c := by
      rw [child_of_ne_splat (by simp)]
      change n.optional.dlookup name = some c
      rw [hopt, List.dlookup_cons_eq]
    rw [nodeAt_cons, hc]
    exact ih

/-- What is found lies behind segments that take the path, at the end of first optionals. -/
theorem find_some {p : List Bytes} {e : Pattern × R} :
    ∀ {n : SegmentTreeNode R}, n.Distinct → find p n = some e →
      ∃ A B m, e.1 = A ++ B ∧ List.Forall₂ Segment.Takes A p ∧ nodeAt A n = some m ∧
        m.ending = some (B, e.2) := by
  induction p generalizing e with
  | nil =>
    intro n _ h
    exact ⟨[], e.1, n, rfl, .nil, rfl, h⟩
  | cons segment lower ih =>
    intro n hd h
    obtain ⟨⟨k, c⟩, hmem, hfind⟩ := List.exists_of_findSome?_eq_some h
    obtain ⟨hk, hc⟩ := (mem_heads hd.here).mp hmem
    obtain ⟨e', he', rfl⟩ := Option.map_eq_some_iff.mp hfind
    obtain ⟨A, B, m, hK, hA, hm, hend⟩ := ih (hd.child hc) he'
    exact ⟨k :: A, B, m, congrArg (k :: ·) hK, .cons hk hA, by rw [nodeAt_cons, hc]; exact hm, hend⟩

/-- A path is found when some segments take it and lead to a node with an ending. -/
theorem find_ne_none {p : List Bytes} : ∀ {n : SegmentTreeNode R}, n.Distinct →
    (find p n ≠ none ↔ ∃ A m, List.Forall₂ Segment.Takes A p ∧ nodeAt A n = some m ∧
      m.ending ≠ none) := by
  induction p with
  | nil =>
    intro n _
    refine ⟨fun h => ⟨[], n, .nil, rfl, h⟩, ?_⟩
    rintro ⟨A, m, hA, hm, hend⟩
    cases hA
    obtain rfl := Option.some.inj hm
    exact hend
  | cons segment lower ih =>
    intro n hd
    constructor
    · intro h
      obtain ⟨e, he⟩ := Option.ne_none_iff_exists'.mp h
      obtain ⟨A, B, m, -, hA, hm, hend⟩ := find_some hd he
      exact ⟨A, m, hA, hm, by rw [hend]; simp⟩
    · rintro ⟨A, m, hA, hm, hend⟩ hnone
      cases hA with
      | @cons k _ A _ hk hA =>
        rw [nodeAt_cons] at hm
        obtain ⟨c, hc, hm⟩ := Option.bind_eq_some_iff.mp hm
        have hchild := List.findSome?_eq_none_iff.mp hnone (k, c) ((mem_heads hd.here).mpr ⟨hk, hc⟩)
        exact (ih (hd.child hc)).mpr ⟨A, m, hA, hm, hend⟩ (Option.map_eq_none_iff.mp hchild)

/-- The pattern found has the route found, and matches. -/
theorem find_sound {n : SegmentTreeNode R} (hd : n.Distinct) {p : List Bytes} {K : Pattern} {r : R}
    (h : find p n = some (K, r)) : routeAt K n = some r ∧ Matches K p := by
  obtain ⟨A, B, m, rfl, hA, hm, hend⟩ := find_some hd h
  obtain ⟨m', hfirst, -, hr⟩ := ending_eq_some.mp hend
  refine ⟨?_, matches_iff.mpr ⟨A, B, rfl, hA, hfirst.allOptional⟩⟩
  rw [routeAt, nodeAt_append, hm, Option.bind_some, hfirst.nodeAt]
  exact hr

end SegmentTreeNode

/-! ## Trees built by additions -/

section Additions

variable {R : Type}

/-- A call of `addRoute`, with the order in which the map it inserts into iterates then. -/
structure AddCall (R : Type) where
  order : IterationOrder R
  path : Bytes
  handler : R

/-- The calls one after the other, up to the first that throws. -/
def addAll : List (AddCall R) → SegmentTreeNode R → Except String (SegmentTreeNode R)
  | [], n => .ok n
  | call :: calls, n =>
    match n.addRoute call.order call.path call.handler with
    | (n', .ok ()) => addAll calls n'
    | (_, .error e) => .error e

/-- Some call has added the pattern with the route. -/
def Added (calls : List (AddCall R)) (K : Pattern) (r : R) : Prop :=
  ∃ call ∈ calls, patternOf (segments call.path) = .ok K ∧ call.handler = r

/-- The routes of the tree are those that were added. -/
theorem routeAt_addAll {t : SegmentTreeNode R} (calls : List (AddCall R)) :
    ∀ {n : SegmentTreeNode R}, n.Distinct → addAll calls n = .ok t →
      t.Distinct ∧ ∀ K r, routeAt K t = some r ↔ routeAt K n = some r ∨ Added calls K r := by
  induction calls with
  | nil =>
    intro n hd h
    obtain rfl := Except.ok.inj h
    exact ⟨hd, fun K r => ⟨.inl, fun h => h.elim id fun ⟨_, hmem, _⟩ => by simp at hmem⟩⟩
  | cons call calls ih =>
    intro n hd h
    rw [addAll] at h
    rcases addRoute_cases call.order n hd call.path call.handler with
      ⟨K₀, hK₀, hfree, heq⟩ | ⟨_, _, _, _, heq⟩ | ⟨_, _, heq⟩
    · rw [heq] at h
      obtain ⟨htd, hroutes⟩ := ih (distinct_put call.order _ K₀ hd) h
      refine ⟨htd, fun K r => ?_⟩
      rw [hroutes, routeAt_put call.order _ K₀ K hd]
      have hadded : Added (call :: calls) K r ↔
          (K₀ = K ∧ call.handler = r) ∨ Added calls K r := by
        unfold Added
        simp only [List.mem_cons, exists_eq_or_imp, hK₀, Except.ok.injEq]
      rw [hadded]
      by_cases hK : K = K₀
      · subst hK
        simp [hfree]
      · have : K₀ ≠ K := fun h => hK h.symm
        simp [hK, this]
    · rw [heq] at h
      cases h
    · rw [heq] at h
      cases h

/-- The path ends, at the end of the segments of an added pattern, at a node from which the
optionals that are first in their maps lead to that pattern's route and no further. -/
def EndsAtFirst (calls : List (AddCall R)) (t : SegmentTreeNode R) (p : List Bytes) : Prop :=
  ∃ A B n m r, Added calls (A ++ B) r ∧ List.Forall₂ Segment.Takes A p ∧
    nodeAt A t = some n ∧ FirstOptionals n B m ∧ m.optional = []

/-- **A lookup is right about the patterns that were added**, and gives the bindings of the
pattern of its route, exactly when a path that matches some pattern also ends at the end of the
first optionals of one. -/
theorem lookup (calls : List (AddCall R)) (t : SegmentTreeNode R)
    (hbuilt : addAll calls .empty = .ok t) (path : Bytes) :
    ((t.findRoute path ≠ none ↔ ∃ K r, Added calls K r ∧ Matches K (segments path)) ∧
      ∀ found, t.findRoute path = some found → ∃ K, Added calls K found.route ∧
        Matches K (segments path) ∧ found.params = params K (segments path) ∧
        found.splats = splats K (segments path)) ↔
    ((∃ K r, Added calls K r ∧ Matches K (segments path)) →
      EndsAtFirst calls t (segments path)) := by
  obtain ⟨hd, hroutes⟩ := routeAt_addAll calls distinct_empty hbuilt
  have hadded : ∀ K r, routeAt K t = some r ↔ Added calls K r := by
    intro K r
    rw [hroutes]
    refine ⟨fun h => h.elim (fun h => ?_) id, .inr⟩
    cases K with
    | nil => cases h
    | cons k K =>
      rw [routeAt, nodeAt_empty (by simp)] at h
      cases h
  have hfound : t.findRoute path ≠ none ↔ find (segments path) t ≠ none := by
    rw [findRoute_eq, ne_eq, ne_eq, Option.map_eq_none_iff]
  have hsound : ∀ found, t.findRoute path = some found → ∃ K, Added calls K found.route ∧
      Matches K (segments path) ∧ found.params = params K (segments path) ∧
      found.splats = splats K (segments path) := by
    intro found h
    rw [findRoute_eq] at h
    obtain ⟨⟨K, r⟩, he, rfl⟩ := Option.map_eq_some_iff.mp h
    obtain ⟨hr, hmatch⟩ := find_sound hd he
    exact ⟨K, (hadded K r).mp hr, hmatch, rfl, rfl⟩
  have hends : EndsAtFirst calls t (segments path) ↔ find (segments path) t ≠ none := by
    rw [find_ne_none hd]
    constructor
    · rintro ⟨A, B, n, m, r, hadd, hA, hn, hfirst, hopt⟩
      have hr := (hadded _ _).mpr hadd
      rw [routeAt, nodeAt_append, hn, Option.bind_some, hfirst.nodeAt] at hr
      exact ⟨A, n, hA, hn, by rw [ending_eq_some.mpr ⟨m, hfirst, hopt, hr⟩]; simp⟩
    · rintro ⟨A, n, hA, hn, hend⟩
      obtain ⟨⟨B, r⟩, he⟩ := Option.ne_none_iff_exists'.mp hend
      obtain ⟨m, hfirst, hopt, hr⟩ := ending_eq_some.mp he
      refine ⟨A, B, n, m, r, (hadded _ _).mp ?_, hA, hn, hfirst, hopt⟩
      rw [routeAt, nodeAt_append, hn, Option.bind_some, hfirst.nodeAt]
      exact hr
  constructor
  · rintro ⟨hiff, -⟩ hmatch
    exact hends.mpr (hfound.mp (hiff.mpr hmatch))
  · intro hcond
    refine ⟨⟨fun h => ?_, fun h => hfound.mpr (hends.mp (hcond h))⟩, hsound⟩
    obtain ⟨found, he⟩ := Option.ne_none_iff_exists'.mp h
    obtain ⟨K, hadd, hmatch, -⟩ := hsound found he
    exact ⟨K, found.route, hadd, hmatch⟩

/-- A new entry goes behind those already there. -/
def IterationOrder.back : IterationOrder R :=
  ⟨fun key children => children ++ [⟨key, .empty⟩], fun _ _ => List.perm_append_singleton _ _⟩

/-- The calls of `Routes::Get(router, "/a", …)` and `Routes::Get(router, "/a/:x?/b", …)`. -/
def optionalBelow : List (AddCall Nat) :=
  [⟨.back, lit "a", 1⟩, ⟨.back, lit "a/:x?/b", 2⟩]

/-- The optional below hides the route of its own node. -/
theorem lookup_optionalBelow : ∃ t : SegmentTreeNode Nat, addAll optionalBelow .empty = .ok t ∧
    (∃ K r, Added optionalBelow K r ∧ Matches K (segments (lit "a"))) ∧
    t.findRoute (lit "a") = none := by
  refine ⟨_, rfl, ⟨[.fixed (lit "a")], 1, ⟨_, List.mem_cons_self, rfl, rfl⟩, rfl, trivial⟩, ?_⟩
  decide

theorem lookup_optionalBelow_taken : ∃ t : SegmentTreeNode Nat,
    addAll optionalBelow .empty = .ok t ∧ (((t.findRoute (lit "a/z/b") ≠ none ↔
        ∃ K r, Added optionalBelow K r ∧ Matches K (segments (lit "a/z/b"))) ∧
      ∀ found, t.findRoute (lit "a/z/b") = some found → ∃ K, Added optionalBelow K found.route ∧
        Matches K (segments (lit "a/z/b")) ∧ found.params = params K (segments (lit "a/z/b")) ∧
        found.splats = splats K (segments (lit "a/z/b"))) ↔
      ((∃ K r, Added optionalBelow K r ∧ Matches K (segments (lit "a/z/b"))) →
        EndsAtFirst optionalBelow t (segments (lit "a/z/b")))) :=
  ⟨_, rfl, lookup optionalBelow _ rfl (lit "a/z/b")⟩

end Additions

end Pistache.Rest
