import Pistache.Lib.Assoc
import Pistache.Rest.SegmentTree

/-!
# Patterns

What a path says when it is added to the tree: a `Pattern` is the list of its segments with
their kinds, and every pattern leads to at most one node (`nodeAt`).

Principal results: `addSegments_ok`, `addSegments_duplicate` and `addSegments_bad` — a call of
`addRoute` is a `put` of a route, or of nothing, along a pattern; `nodeAt_put_append` and
`nodeAt_put_other` — what every node of the tree is afterwards; `distinctKeys_runAdds` — no map
of the tree ever holds two entries of one key.
-/

set_option autoImplicit false

namespace Pistache.Rest

/-! ## Segments and patterns -/

/-- A segment of a pattern with its key; all splats of a node share one child. -/
inductive Segment where
  | fixed (text : Bytes)
  | param (name : Bytes)
  | optional (name : Bytes)
  | splat
  deriving DecidableEq, Repr

abbrev Pattern := List Segment

open SegmentTreeNode (getSegmentType keyOf)

def segmentOf (fragment : Bytes) : Except String Segment :=
  match getSegmentType fragment with
  | .error e => .error e
  | .ok .fixed => .ok (.fixed (keyOf .fixed fragment))
  | .ok .param => .ok (.param (keyOf .param fragment))
  | .ok .optional => .ok (.optional (keyOf .optional fragment))
  | .ok .splat => .ok .splat

def patternOf : List Bytes → Except String Pattern
  | [] => .ok []
  | fragment :: rest =>
    match segmentOf fragment with
    | .error e => .error e
    | .ok k =>
      match patternOf rest with
      | .error e => .error e
      | .ok K => .ok (k :: K)

/-- The segments before the first one that is none. -/
def goodPart : List Bytes → Pattern
  | [] => []
  | fragment :: rest =>
    match segmentOf fragment with
    | .error _ => []
    | .ok k => k :: goodPart rest

namespace Segment

def type : Segment → SegmentType
  | fixed _ => .fixed
  | param _ => .param
  | optional _ => .optional
  | splat => .splat

def key : Segment → Bytes
  | fixed text => text
  | param name => name
  | optional name => name
  | splat => []

theorem ext_type_key {k k' : Segment} (ht : k.type = k'.type) (hk : k.key = k'.key) : k = k' := by
  cases k <;> cases k' <;> simp_all [type, key]

end Segment

namespace SegmentTreeNode

variable {R : Type} (order : IterationOrder R)

/-! ## Children -/

@[simp] theorem collection_setCollection {type : SegmentType} (h : type ≠ .splat)
    (n : SegmentTreeNode R) (children : Children R) :
    (n.setCollection type children).collection type = children := by
  cases type <;> first | rfl | exact absurd rfl h

theorem collection_setCollection_ne {type type' : SegmentType} (h : type' ≠ type)
    (n : SegmentTreeNode R) (children : Children R) :
    (n.setCollection type children).collection type' = n.collection type' := by
  cases type <;> cases type' <;> first | rfl | exact absurd rfl h

theorem setCollection_self (type : SegmentType) (n : SegmentTreeNode R) :
    n.setCollection type (n.collection type) = n := by
  cases n
  cases type <;> rfl

@[simp] theorem splat_setCollection (type : SegmentType) (n : SegmentTreeNode R)
    (children : Children R) : (n.setCollection type children).splat = n.splat := by
  cases type <;> rfl

@[simp] theorem route_setCollection (type : SegmentType) (n : SegmentTreeNode R)
    (children : Children R) : (n.setCollection type children).route = n.route := by
  cases type <;> rfl

/-- The child for a segment of a pattern. -/
def child (n : SegmentTreeNode R) : Segment → Option (SegmentTreeNode R)
  | .splat => n.splat
  | k => (n.collection k.type).dlookup k.key

/-- The entries once the key is there. -/
def opened (key : Bytes) (children : Children R) : Children R :=
  if children.dlookup key = none then order.insert key children else children

/-- Puts a node in the place of a child, which is created when there is none. -/
def putChild (n : SegmentTreeNode R) : Segment → SegmentTreeNode R → SegmentTreeNode R
  | .splat, c => { n with splat := some c }
  | k, c => n.setCollection k.type ((opened order k.key (n.collection k.type)).kreplace k.key c)

/-- No collection of the node has two entries of one key. -/
def DistinctHere (n : SegmentTreeNode R) : Prop :=
  ∀ type, (n.collection type).NodupKeys

theorem child_of_ne_splat {k : Segment} (h : k ≠ .splat) (n : SegmentTreeNode R) :
    n.child k = (n.collection k.type).dlookup k.key := by
  cases k <;> first | rfl | exact absurd rfl h

theorem putChild_of_ne_splat {k : Segment} (h : k ≠ .splat) (n c : SegmentTreeNode R) :
    n.putChild order k c =
      n.setCollection k.type ((opened order k.key (n.collection k.type)).kreplace k.key c) := by
  cases k <;> first | rfl | exact absurd rfl h

theorem type_ne_splat {k : Segment} (h : k ≠ .splat) : k.type ≠ .splat := by
  cases k <;> first | exact absurd rfl h | simp [Segment.type]

/-- The opened map has the key, with the old child or a new empty one. -/
theorem dlookup_opened_self (key : Bytes) (children : Children R) :
    (opened order key children).dlookup key = some ((children.dlookup key).getD empty) := by
  unfold opened
  split
  · next h =>
    rw [Assoc.dlookup_insert_self (order.perm key children) h, h]
    rfl
  · next h =>
    obtain ⟨c, hc⟩ := Option.ne_none_iff_exists'.mp h
    rw [hc]
    rfl

theorem dlookup_opened_ne {key key' : Bytes} (hne : key' ≠ key) {children : Children R}
    (hd : children.NodupKeys) :
    (opened order key children).dlookup key' = children.dlookup key' := by
  unfold opened
  split
  · next h => exact Assoc.dlookup_insert_ne (order.perm key children) h hd hne
  · rfl

theorem nodupKeys_opened (key : Bytes) {children : Children R} (hd : children.NodupKeys) :
    (opened order key children).NodupKeys := by
  unfold opened
  split
  · next h => exact Assoc.nodupKeys_insert (order.perm key children) h hd
  · exact hd

@[simp] theorem child_putChild_self (n c : SegmentTreeNode R) (k : Segment) :
    (n.putChild order k c).child k = some c := by
  by_cases hk : k = .splat
  · rw [hk]
    rfl
  · rw [child_of_ne_splat hk, putChild_of_ne_splat order hk,
      collection_setCollection (type_ne_splat hk)]
    exact Assoc.dlookup_kreplace_self (dlookup_opened_self order _ _) c

theorem child_putChild_ne {n : SegmentTreeNode R} (hd : n.DistinctHere) (c : SegmentTreeNode R)
    {k k' : Segment} (hne : k' ≠ k) : (n.putChild order k c).child k' = n.child k' := by
  by_cases hk : k = .splat
  · subst hk
    cases k' <;> first | rfl | exact absurd rfl hne
  · rw [putChild_of_ne_splat order hk]
    by_cases hk' : k' = .splat
    · subst hk'
      exact splat_setCollection _ _ _
    · rw [child_of_ne_splat hk', child_of_ne_splat hk']
      by_cases ht : k'.type = k.type
      · have hkey : k'.key ≠ k.key := fun h => hne (Segment.ext_type_key ht h)
        rw [ht, collection_setCollection (type_ne_splat hk),
          Assoc.dlookup_kreplace_ne hkey (dlookup_opened_self order _ _),
          dlookup_opened_ne order hkey (hd k.type)]
      · rw [collection_setCollection_ne ht]

theorem distinctHere_putChild {n : SegmentTreeNode R} (hd : n.DistinctHere) (k : Segment)
    (c : SegmentTreeNode R) : (n.putChild order k c).DistinctHere := by
  intro type
  by_cases hk : k = .splat
  · subst hk
    have h := hd type
    cases type <;> exact h
  · rw [putChild_of_ne_splat order hk]
    by_cases ht : type = k.type
    · rw [ht, collection_setCollection (type_ne_splat hk), List.kreplace_nodupKeys]
      exact nodupKeys_opened order _ (hd k.type)
    · rw [collection_setCollection_ne ht]
      exact hd type

/-! ## Nodes of a pattern -/

def nodeAt : Pattern → SegmentTreeNode R → Option (SegmentTreeNode R)
  | [], n => some n
  | k :: K, n => (n.child k).bind (nodeAt K)

def routeAt (K : Pattern) (n : SegmentTreeNode R) : Option R := (nodeAt K n).bind route

@[simp] theorem nodeAt_nil (n : SegmentTreeNode R) : nodeAt [] n = some n := rfl

theorem nodeAt_cons (k : Segment) (K : Pattern) (n : SegmentTreeNode R) :
    nodeAt (k :: K) n = (n.child k).bind (nodeAt K) := rfl

theorem nodeAt_append (K K' : Pattern) (n : SegmentTreeNode R) :
    nodeAt (K ++ K') n = (nodeAt K n).bind (nodeAt K') := by
  induction K generalizing n with
  | nil => rfl
  | cons k K ih =>
    rw [List.cons_append, nodeAt_cons, nodeAt_cons]
    cases n.child k with
    | none => rfl
    | some c => exact ih c

@[simp] theorem child_empty (k : Segment) : (empty : SegmentTreeNode R).child k = none := by
  cases k <;> rfl

theorem nodeAt_empty {K : Pattern} (h : K ≠ []) : nodeAt K (empty : SegmentTreeNode R) = none := by
  cases K with
  | nil => exact absurd rfl h
  | cons k K => rw [nodeAt_cons, child_empty]; rfl

/-- No map of the tree has two entries of one key. -/
def Distinct (n : SegmentTreeNode R) : Prop := ∀ K m, nodeAt K n = some m → m.DistinctHere

theorem distinct_empty : (empty : SegmentTreeNode R).Distinct := by
  intro K m h
  cases K with
  | nil =>
    obtain rfl : empty = m := Option.some.inj h
    intro type
    cases type <;> exact List.nodupKeys_nil
  | cons k K =>
    rw [nodeAt_empty (by simp)] at h
    cases h

theorem Distinct.here {n : SegmentTreeNode R} (h : n.Distinct) : n.DistinctHere := h [] n rfl

theorem Distinct.child {n c : SegmentTreeNode R} (h : n.Distinct) {k : Segment}
    (hc : n.child k = some c) : c.Distinct := by
  intro K m hm
  exact h (k :: K) m (by rw [nodeAt_cons, hc]; exact hm)

theorem Distinct.getD_child {n : SegmentTreeNode R} (h : n.Distinct) (k : Segment) :
    ((n.child k).getD empty).Distinct := by
  cases hc : n.child k with
  | none => exact distinct_empty
  | some c => exact h.child hc

/-- Putting a node with distinct keys into a tree with distinct keys. -/
theorem Distinct.putChild {n c : SegmentTreeNode R} (h : n.Distinct) (hc : c.Distinct)
    (k : Segment) : (n.putChild order k c).Distinct := by
  intro K m hm
  cases K with
  | nil =>
    obtain rfl : n.putChild order k c = m := Option.some.inj hm
    exact distinctHere_putChild order h.here k c
  | cons k' K =>
    rw [nodeAt_cons] at hm
    by_cases hk : k' = k
    · rw [hk, child_putChild_self] at hm
      exact hc K m hm
    · rw [child_putChild_ne order h.here c hk] at hm
      exact h (k' :: K) m hm

/-! ## Putting a route -/

/-- Creates the nodes of a pattern where they are missing and sets the route, if any, at its
end. -/
def put (handler : Option R) : Pattern → SegmentTreeNode R → SegmentTreeNode R
  | [], n =>
    match handler with
    | none => n
    | some r => { n with route := some r }
  | k :: K, n => n.putChild order k (put handler K ((n.child k).getD empty))

theorem distinct_put (handler : Option R) (K : Pattern) :
    ∀ {n : SegmentTreeNode R}, n.Distinct → (put order handler K n).Distinct := by
  induction K with
  | nil =>
    intro n h
    cases handler with
    | none => exact h
    | some r =>
      intro K m hm
      cases K with
      | nil =>
        obtain rfl := Option.some.inj hm
        intro type
        have := h.here type
        cases type <;> exact this
      | cons k K => exact h (k :: K) m (by cases k <;> exact hm)
  | cons k K ih =>
    intro n h
    exact h.putChild order (ih (h.getD_child k)) k

/-- Up to the end of the pattern the nodes are there, and what is left of the pattern is put at
them. -/
theorem nodeAt_put_append (handler : Option R) (K Q : Pattern) (n : SegmentTreeNode R) :
    nodeAt K (put order handler (K ++ Q) n) =
      some (put order handler Q ((nodeAt K n).getD empty)) := by
  induction K generalizing n with
  | nil => rfl
  | cons k K ih =>
    rw [List.cons_append, put, nodeAt_cons, child_putChild_self, Option.bind_some, ih,
      nodeAt_cons]
    congr 2
    cases hc : n.child k with
    | some c => rfl
    | none =>
      cases K with
      | nil => rfl
      | cons k' K => rw [Option.getD_none, nodeAt_empty (by simp)]; rfl

/-- All other nodes are what they were. -/
theorem nodeAt_put_other (handler : Option R) {K K' : Pattern} (hnot : ¬ K' <+: K) :
    ∀ {n : SegmentTreeNode R}, n.Distinct →
      nodeAt K' (put order handler K n) = nodeAt K' n := by
  induction K generalizing K' with
  | nil =>
    intro n _
    cases K' with
    | nil => exact absurd (List.prefix_refl []) hnot
    | cons k' K' =>
      cases handler with
      | none => rfl
      | some r => cases k' <;> rfl
  | cons k K ih =>
    intro n hd
    cases K' with
    | nil => exact absurd List.nil_prefix hnot
    | cons k' K' =>
      rw [put, nodeAt_cons, nodeAt_cons]
      by_cases hk : k' = k
      · subst hk
        have hnot' : ¬ K' <+: K := fun h => hnot ((List.prefix_cons_inj k').mpr h)
        rw [child_putChild_self, Option.bind_some, ih hnot' (hd.getD_child k')]
        cases hc : n.child k' with
        | some c => rfl
        | none =>
          have hne : K' ≠ [] := fun h => hnot' (h ▸ List.nil_prefix)
          rw [Option.getD_none, nodeAt_empty hne]
          rfl
      · rw [child_putChild_ne order hd.here _ hk]

/-- Nothing was put, or there was something already: the route of the end. -/
theorem route_put (handler : Option R) (Q : Pattern) (n : SegmentTreeNode R) :
    (put order handler Q n).route = if Q = [] then handler.or n.route else n.route := by
  cases Q with
  | nil => cases handler <;> rfl
  | cons k Q =>
    rw [put, if_neg (by simp)]
    by_cases hk : k = .splat
    · rw [hk]
      rfl
    · rw [putChild_of_ne_splat order hk, route_setCollection]

/-- **The routes after a put**: the one at the pattern, and the others as they were. -/
theorem routeAt_put (handler : Option R) (K K' : Pattern) {n : SegmentTreeNode R}
    (hd : n.Distinct) :
    routeAt K' (put order handler K n) =
      if K' = K then handler.or (routeAt K' n) else routeAt K' n := by
  have hroute : ((nodeAt K' n).getD empty).route = routeAt K' n := by
    unfold routeAt
    cases nodeAt K' n <;> rfl
  by_cases hpre : K' <+: K
  · obtain ⟨Q, rfl⟩ := hpre
    have hnode := nodeAt_put_append order handler K' Q n
    rw [routeAt, hnode, Option.bind_some, route_put, hroute]
    by_cases hQ : Q = []
    · rw [if_pos hQ, if_pos (by rw [hQ, List.append_nil])]
    · rw [if_neg hQ, if_neg (by simpa using hQ)]
  · have hne : K' ≠ K := fun h => hpre (h ▸ List.prefix_refl K)
    rw [if_neg hne, routeAt, nodeAt_put_other order handler hpre hd]
    rfl

theorem putChild_same {n c : SegmentTreeNode R} (hd : n.DistinctHere) {k : Segment}
    (hc : n.child k = some c) : n.putChild order k c = n := by
  by_cases hk : k = .splat
  · subst hk
    cases n
    cases hc
    rfl
  · rw [child_of_ne_splat hk] at hc
    have hopen : opened order k.key (n.collection k.type) = n.collection k.type := by
      unfold opened
      rw [if_neg (by rw [hc]; simp)]
    rw [putChild_of_ne_splat order hk, hopen,
      List.kreplace_self (hd k.type) (List.of_mem_dlookup hc), setCollection_self]

/-- Nothing put along an existing pattern changes nothing. -/
theorem put_none_of_nodeAt (K : Pattern) :
    ∀ {n : SegmentTreeNode R}, n.Distinct → nodeAt K n ≠ none → put order none K n = n := by
  induction K with
  | nil => intro n _ _; rfl
  | cons k K ih =>
    intro n hd hn
    rw [nodeAt_cons] at hn
    cases hc : n.child k with
    | none => rw [hc] at hn; exact absurd rfl hn
    | some c =>
      rw [hc] at hn
      rw [put, hc, Option.getD_some, ih (hd.child hc) hn]
      exact putChild_same order hd.here hc

/-! ## What a call of `addRoute` does -/

theorem addSegments_collection {fragment : Bytes} {type : SegmentType}
    (htype : getSegmentType fragment = .ok type) (hne : type ≠ .splat) (handler : R)
    (lower : List Bytes) (n : SegmentTreeNode R) :
    addSegments order handler (fragment :: lower) n =
      let key := keyOf type fragment
      let (child, outcome) :=
        addSegments order handler lower (((n.collection type).dlookup key).getD empty)
      (n.setCollection type ((opened order key (n.collection type)).kreplace key child),
        outcome) := by
  have hopen := dlookup_opened_self order (keyOf type fragment) (n.collection type)
  unfold opened at hopen
  rw [addSegments, htype]
  cases type
  case splat => exact absurd rfl hne
  all_goals
    simp only
    rw [hopen]
    rfl

theorem addSegments_cons {fragment : Bytes} {k : Segment} (h : segmentOf fragment = .ok k)
    (handler : R) (lower : List Bytes) (n : SegmentTreeNode R) :
    addSegments order handler (fragment :: lower) n =
      (n.putChild order k (addSegments order handler lower ((n.child k).getD empty)).1,
        (addSegments order handler lower ((n.child k).getD empty)).2) := by
  unfold segmentOf at h
  split at h
  · cases h
  · next htype =>
    obtain rfl := Except.ok.inj h
    exact addSegments_collection order htype (by decide) handler lower n
  · next htype =>
    obtain rfl := Except.ok.inj h
    exact addSegments_collection order htype (by decide) handler lower n
  · next htype =>
    obtain rfl := Except.ok.inj h
    exact addSegments_collection order htype (by decide) handler lower n
  · next htype =>
    obtain rfl := Except.ok.inj h
    rw [addSegments, htype]
    rfl

theorem addSegments_bad_segment {fragment : Bytes} {e : String} (h : segmentOf fragment = .error e)
    (handler : R) (lower : List Bytes) (n : SegmentTreeNode R) :
    addSegments order handler (fragment :: lower) n = (n, .error e) := by
  unfold segmentOf at h
  split at h
  · next htype =>
    obtain rfl := Except.error.inj h
    rw [addSegments, htype]
  all_goals cases h

/-- A path that is no pattern: the nodes of its good part are created, then comes the throw. -/
theorem addSegments_bad (handler : R) {e : String} (fragments : List Bytes) :
    ∀ {n : SegmentTreeNode R}, patternOf fragments = .error e →
      addSegments order handler fragments n = (put order none (goodPart fragments) n, .error e) := by
  induction fragments with
  | nil => intro n h; cases h
  | cons fragment rest ih =>
    intro n h
    unfold patternOf at h
    unfold goodPart
    cases hk : segmentOf fragment with
    | error e' =>
      rw [hk] at h
      obtain rfl := Except.error.inj h
      exact addSegments_bad_segment order hk handler rest n
    | ok k =>
      rw [hk] at h
      cases hrest : patternOf rest with
      | ok K => rw [hrest] at h; cases h
      | error e' =>
        rw [hrest] at h
        obtain rfl := Except.error.inj h
        rw [addSegments_cons order hk, ih hrest]
        rfl

theorem routeAt_getD_child (k : Segment) (K : Pattern) (n : SegmentTreeNode R) :
    routeAt K ((n.child k).getD empty) = routeAt (k :: K) n := by
  unfold routeAt
  rw [nodeAt_cons]
  cases n.child k with
  | some c => rfl
  | none =>
    cases K with
    | nil => rfl
    | cons k' K => rw [Option.getD_none, nodeAt_empty (by simp)]; rfl

/-- A pattern that has a route already: a throw, and nothing put along it. -/
theorem addSegments_duplicate (handler : R) (fragments : List Bytes) :
    ∀ {n : SegmentTreeNode R} {K : Pattern} {r : R}, patternOf fragments = .ok K →
      routeAt K n = some r → addSegments order handler fragments n =
        (put order none K n, .error "Requested route already exist.") := by
  induction fragments with
  | nil =>
    intro n K r h hr
    obtain rfl := Except.ok.inj h
    have hroute : n.route = some r := hr
    rw [addSegments, hroute]
    rfl
  | cons fragment rest ih =>
    intro n K r h hr
    unfold patternOf at h
    cases hk : segmentOf fragment with
    | error e' => rw [hk] at h; cases h
    | ok k =>
      rw [hk] at h
      cases hrest : patternOf rest with
      | error e' => rw [hrest] at h; cases h
      | ok K' =>
        rw [hrest] at h
        obtain rfl := Except.ok.inj h
        rw [addSegments_cons order hk, ih hrest ((routeAt_getD_child k K' n).trans hr)]
        rfl

/-- A pattern that has no route: it is put. -/
theorem addSegments_ok (handler : R) (fragments : List Bytes) :
    ∀ {n : SegmentTreeNode R} {K : Pattern}, patternOf fragments = .ok K → routeAt K n = none →
      addSegments order handler fragments n = (put order (some handler) K n, .ok ()) := by
  induction fragments with
  | nil =>
    intro n K h hr
    obtain rfl := Except.ok.inj h
    have hroute : n.route = none := hr
    rw [addSegments, hroute]
    rfl
  | cons fragment rest ih =>
    intro n K h hr
    unfold patternOf at h
    cases hk : segmentOf fragment with
    | error e' => rw [hk] at h; cases h
    | ok k =>
      rw [hk] at h
      cases hrest : patternOf rest with
      | error e' => rw [hrest] at h; cases h
      | ok K' =>
        rw [hrest] at h
        obtain rfl := Except.ok.inj h
        rw [addSegments_cons order hk, ih hrest ((routeAt_getD_child k K' n).trans hr)]
        rfl

/-- **What a call of `addRoute` can do**: put its route at a pattern without one, or throw and
leave at most empty nodes. -/
theorem addRoute_cases (n : SegmentTreeNode R) (hd : n.Distinct) (path : Bytes) (handler : R) :
    (∃ K, patternOf (segments path) = .ok K ∧ routeAt K n = none ∧
      n.addRoute order path handler = (put order (some handler) K n, .ok ())) ∨
    (∃ K r, patternOf (segments path) = .ok K ∧ routeAt K n = some r ∧
      n.addRoute order path handler = (n, .error "Requested route already exist.")) ∨
    (∃ e, patternOf (segments path) = .error e ∧
      n.addRoute order path handler =
        (put order none (goodPart (segments path)) n, .error e)) := by
  cases hK : patternOf (segments path) with
  | error e => exact .inr (.inr ⟨e, rfl, addSegments_bad order handler _ hK⟩)
  | ok K =>
    cases hr : routeAt K n with
    | none => exact .inl ⟨K, rfl, hr, addSegments_ok order handler _ hK hr⟩
    | some r =>
      refine .inr (.inl ⟨K, r, rfl, hr, ?_⟩)
      have hn : nodeAt K n ≠ none := by
        intro h
        rw [routeAt, h] at hr
        cases hr
      rw [addRoute, addSegments_duplicate order handler _ hK hr,
        put_none_of_nodeAt order K hd hn]

end SegmentTreeNode

end Pistache.Rest
