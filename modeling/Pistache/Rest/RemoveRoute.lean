import Pistache.Rest.AddRoute

/-!
# Removing a route

`removeRoute` resets the route at the end of its pattern and erases, on the way back, a child
that reports to be empty.  A node that handed the call to its splat reports what the splat
reports, not what it holds itself.

Principal results: `prune_live` — what a removal does to a tree in which every node leads to a
route, as long as that report is right; `rebuild` — such a tree is the one that additions of its
routes build; `removeRoute_frame` — over runs of additions and removals, a removal removes
nothing else.
-/

set_option autoImplicit false

namespace Pistache.Rest

open Backtrack SegmentTreeNode

namespace SegmentTreeNode

variable {R : Type}

/-! ## A removal along a pattern -/

def eraseChild (n : SegmentTreeNode R) (k : Segment) : SegmentTreeNode R :=
  n.setCollection k.type ((n.collection k.type).kerase k.key)

/-- `removeRoute` along a pattern; none stands for the throw. -/
def prune : Pattern → SegmentTreeNode R → Option (SegmentTreeNode R × Bool)
  | [], n =>
    let n : SegmentTreeNode R := { n with route := none }
    some (n, n.isEmpty)
  | k :: K, n =>
    (n.child k).bind fun c => (prune K c).map fun x =>
      if k = .splat then (n.putChild .back k x.1, x.2)
      else
        let n := if x.2 then n.eraseChild k else n.putChild .back k x.1
        (n, n.isEmpty)

theorem putChild_existing (order : IterationOrder R) {n c : SegmentTreeNode R} {k : Segment}
    (hk : k ≠ .splat) (hc : n.child k = some c) (c' : SegmentTreeNode R) :
    n.putChild order k c' =
      n.setCollection k.type ((n.collection k.type).kreplace k.key c') := by
  rw [child_of_ne_splat hk] at hc
  rw [putChild_of_ne_splat order hk]
  unfold opened
  rw [if_neg (by rw [hc]; simp)]

/-- What `removeSegments` does with a segment that has a collection. -/
theorem removeSegments_collection {fragment : Bytes} {type : SegmentType}
    (htype : getSegmentType fragment = .ok type) (hne : type ≠ .splat) (lower : List Bytes)
    (n : SegmentTreeNode R) :
    removeSegments (fragment :: lower) n =
      match (n.collection type).dlookup (keyOf type fragment) with
      | none => .error "Requested route does not exist."
      | some child =>
        match removeSegments lower child with
        | .error e => .error e
        | .ok (child, removable) =>
          let n := n.setCollection type
            (if removable then (n.collection type).kerase (keyOf type fragment)
             else (n.collection type).kreplace (keyOf type fragment) child)
          .ok (n, n.isEmpty) := by
  rw [removeSegments, htype]
  cases type
  case splat => exact absurd rfl hne
  all_goals rfl

theorem removeSegments_bad {e : String} (fragments : List Bytes) :
    ∀ n : SegmentTreeNode R, patternOf fragments = .error e →
      ∃ e', removeSegments fragments n = .error e' := by
  induction fragments with
  | nil => intro n h; cases h
  | cons fragment rest ih =>
    intro n h
    cases htype : getSegmentType fragment with
    | error e' =>
      rw [removeSegments, htype]
      exact ⟨e', rfl⟩
    | ok type =>
      have hrest : patternOf rest = .error e := by
        have hseg : ∃ k, segmentOf fragment = .ok k := by
          unfold segmentOf
          rw [htype]
          cases type <;> exact ⟨_, rfl⟩
        obtain ⟨k, hk⟩ := hseg
        unfold patternOf at h
        rw [hk] at h
        cases hr : patternOf rest with
        | error e' =>
          rw [hr] at h
          exact h
        | ok K => rw [hr] at h; cases h
      by_cases hsplat : type = .splat
      · subst hsplat
        rw [removeSegments, htype]
        cases hc : n.splat with
        | none => exact ⟨_, rfl⟩
        | some c =>
          obtain ⟨e', he'⟩ := ih c hrest
          simp only
          rw [he']
          exact ⟨e', rfl⟩
      · rw [removeSegments_collection htype hsplat]
        cases hc : (n.collection type).dlookup (keyOf type fragment) with
        | none => exact ⟨_, rfl⟩
        | some c =>
          obtain ⟨e', he'⟩ := ih c hrest
          simp only
          rw [he']
          exact ⟨e', rfl⟩

/-- The calls of `removeRoute` are prunings. -/
theorem removeSegments_eq (fragments : List Bytes) :
    ∀ {n : SegmentTreeNode R} {K : Pattern}, patternOf fragments = .ok K →
      removeSegments fragments n =
        match prune K n with
        | some x => .ok x
        | none => .error "Requested route does not exist." := by
  induction fragments with
  | nil =>
    intro n K h
    obtain rfl := Except.ok.inj h
    rfl
  | cons fragment rest ih =>
    intro n K h
    unfold patternOf at h
    cases hk : segmentOf fragment with
    | error e' => rw [hk] at h; cases h
    | ok k =>
      rw [hk] at h
      cases hrest : patternOf rest with
      | error e' => rw [hrest] at h; cases h
      | ok K' =>
        rw [hrest] at h
        obtain rfl := Except.ok.inj h
        have htyped : ∀ type, getSegmentType fragment = .ok type → type ≠ .splat →
            k.type = type → k.key = keyOf type fragment → k ≠ .splat →
            removeSegments (fragment :: rest) n =
              match prune (k :: K') n with
              | some x => .ok x
              | none => .error "Requested route does not exist." := by
          intro type htype hne ht hkey hks
          rw [removeSegments_collection htype hne, prune]
          cases hc : n.child k with
          | none =>
            have hc' := hc
            rw [child_of_ne_splat hks, ht, hkey] at hc'
            rw [hc']
            rfl
          | some c =>
            have hc' := hc
            rw [child_of_ne_splat hks, ht, hkey] at hc'
            rw [hc']
            simp only [Option.bind_some]
            rw [ih hrest]
            cases prune K' c with
            | none => rfl
            | some x =>
              obtain ⟨c', removable⟩ := x
              simp only [Option.map_some, if_neg hks, putChild_existing .back hks hc, eraseChild, ht,
                hkey]
              cases removable <;> rfl
        unfold segmentOf at hk
        split at hk
        · cases hk
        · next htype =>
          obtain rfl := Except.ok.inj hk
          exact htyped _ htype (by decide) rfl rfl (by simp)
        · next htype =>
          obtain rfl := Except.ok.inj hk
          exact htyped _ htype (by decide) rfl rfl (by simp)
        · next htype =>
          obtain rfl := Except.ok.inj hk
          exact htyped _ htype (by decide) rfl rfl (by simp)
        · next htype =>
          obtain rfl := Except.ok.inj hk
          rw [removeSegments, htype, prune]
          cases hc : n.child .splat with
          | none =>
            have hc' : n.splat = none := hc
            simp only [hc']
            rfl
          | some c =>
            have hc' : n.splat = some c := hc
            simp only [hc', Option.bind_some]
            rw [ih hrest]
            cases prune K' c with
            | none => rfl
            | some x => rfl

/-! ## Children after an erasure -/

theorem child_eraseChild_self {n : SegmentTreeNode R} (hd : n.DistinctHere) {k : Segment}
    (hk : k ≠ .splat) : (n.eraseChild k).child k = none := by
  rw [child_of_ne_splat hk, eraseChild, collection_setCollection (type_ne_splat hk)]
  exact List.dlookup_kerase k.key (hd k.type)

theorem child_eraseChild_ne {n : SegmentTreeNode R} {k k' : Segment} (hk : k ≠ .splat)
    (hne : k' ≠ k) : (n.eraseChild k).child k' = n.child k' := by
  unfold eraseChild
  by_cases hk' : k' = .splat
  · subst hk'
    exact splat_setCollection _ _ _
  · rw [child_of_ne_splat hk', child_of_ne_splat hk']
    by_cases ht : k'.type = k.type
    · have hkey : k'.key ≠ k.key := fun h => hne (Segment.ext_type_key ht h)
      rw [ht, collection_setCollection (type_ne_splat hk), List.dlookup_kerase_ne hkey]
    · rw [collection_setCollection_ne ht]

theorem distinct_eraseChild {n : SegmentTreeNode R} (hd : n.Distinct) {k : Segment}
    (hk : k ≠ .splat) : (n.eraseChild k).Distinct := by
  intro K m hm
  cases K with
  | nil =>
    obtain rfl := Option.some.inj hm
    intro type
    unfold eraseChild
    by_cases ht : type = k.type
    · rw [ht, collection_setCollection (type_ne_splat hk)]
      exact (hd.here k.type).kerase k.key
    · rw [collection_setCollection_ne ht]
      exact hd.here type
  | cons k' K =>
    rw [nodeAt_cons] at hm
    by_cases hkk : k' = k
    · rw [hkk, child_eraseChild_self hd.here hk] at hm
      cases hm
    · rw [child_eraseChild_ne hk hkk] at hm
      exact hd (k' :: K) m hm

theorem route_eraseChild (n : SegmentTreeNode R) (k : Segment) :
    (n.eraseChild k).route = n.route := route_setCollection _ _ _

theorem nil_of_dlookup {children : Children R} (h : ∀ key, children.dlookup key = none) :
    children = [] := by
  cases children with
  | nil => rfl
  | cons entry rest =>
    have := h entry.1
    rw [show entry :: rest = ⟨entry.1, entry.2⟩ :: rest from rfl, List.dlookup_cons_eq] at this
    cases this

/-- A node reports to be empty if it has no route and no child. -/
theorem isEmpty_iff {n : SegmentTreeNode R} :
    n.isEmpty = true ↔ n.route = none ∧ ∀ k, n.child k = none := by
  unfold isEmpty
  simp only [Bool.and_eq_true, List.isEmpty_iff, Option.isNone_iff_eq_none]
  constructor
  · rintro ⟨⟨⟨⟨h₁, h₂⟩, h₃⟩, h₄⟩, h₅⟩
    refine ⟨h₅, fun k => ?_⟩
    cases k with
    | fixed text => exact congrArg (List.dlookup text) h₁
    | param name => exact congrArg (List.dlookup name) h₂
    | optional name => exact congrArg (List.dlookup name) h₃
    | splat => exact h₄
  · rintro ⟨h₅, h⟩
    exact ⟨⟨⟨⟨nil_of_dlookup fun key => h (.fixed key), nil_of_dlookup fun key => h (.param key)⟩,
      nil_of_dlookup fun key => h (.optional key)⟩, h .splat⟩, h₅⟩

theorem not_isEmpty_of_child {n c : SegmentTreeNode R} {k : Segment} (hc : n.child k = some c) :
    n.isEmpty = false := by
  by_contra h
  have := (isEmpty_iff.mp (Bool.not_eq_false _ ▸ h)).2 k
  rw [hc] at this
  cases this

theorem routeAt_cons (k : Segment) (K : Pattern) (n : SegmentTreeNode R) :
    routeAt (k :: K) n = (n.child k).bind (routeAt K) := by
  unfold routeAt
  rw [nodeAt_cons]
  cases n.child k <;> rfl

theorem routeAt_nil (n : SegmentTreeNode R) : routeAt [] n = n.route := rfl

/-! ## Trees in which every node leads to a route -/

/-- The node leads to a route. -/
def Leads (n : SegmentTreeNode R) : Prop := ∃ B r, routeAt B n = some r

/-- Every node of the tree leads to a route. -/
def Live (n : SegmentTreeNode R) : Prop := ∀ A m, nodeAt A n = some m → m.Leads

/-- Every node leads to a route, except those that only splats lead to. -/
def LiveRoot (n : SegmentTreeNode R) : Prop :=
  ∀ A m, nodeAt A n = some m → (∀ k ∈ A, k = .splat) ∨ m.Leads

theorem Live.leads {n : SegmentTreeNode R} (h : n.Live) : n.Leads := h [] n rfl

theorem Live.child {n c : SegmentTreeNode R} (h : n.Live) {k : Segment} (hc : n.child k = some c) :
    c.Live := by
  intro A m hm
  exact h (k :: A) m (by rw [nodeAt_cons, hc]; exact hm)

theorem live_of_children {n : SegmentTreeNode R} (hn : n.Leads)
    (h : ∀ k c, n.child k = some c → c.Live) : n.Live := by
  intro A m hm
  cases A with
  | nil =>
    obtain rfl := Option.some.inj hm
    exact hn
  | cons k A =>
    obtain ⟨c, hc, hm⟩ := Option.bind_eq_some_iff.mp hm
    exact h k c hc A m hm

theorem LiveRoot.child {n c : SegmentTreeNode R} (h : n.LiveRoot) {k : Segment} (hk : k ≠ .splat)
    (hc : n.child k = some c) : c.Live := by
  intro A m hm
  rcases h (k :: A) m (by rw [nodeAt_cons, hc]; exact hm) with hall | hl
  · exact absurd (hall k List.mem_cons_self) hk
  · exact hl

theorem LiveRoot.splat {n c : SegmentTreeNode R} (h : n.LiveRoot) (hc : n.splat = some c) :
    c.LiveRoot := by
  intro A m hm
  have hc' : n.child .splat = some c := hc
  rcases h (.splat :: A) m (by rw [nodeAt_cons, hc']; exact hm) with hall | hl
  · exact .inl fun k hk => hall k (List.mem_cons_of_mem _ hk)
  · exact .inr hl

theorem liveRoot_of_children {n : SegmentTreeNode R}
    (h : ∀ k c, n.child k = some c → if k = .splat then c.LiveRoot else c.Live) : n.LiveRoot := by
  intro A m hm
  cases A with
  | nil => exact .inl (by simp)
  | cons k A =>
    obtain ⟨c, hc, hm⟩ := Option.bind_eq_some_iff.mp hm
    have hchild := h k c hc
    by_cases hk : k = .splat
    · rw [if_pos hk] at hchild
      rcases hchild A m hm with hall | hl
      · refine .inl fun k' hk' => ?_
        rcases List.mem_cons.mp hk' with rfl | hk'
        · exact hk
        · exact hall k' hk'
      · exact .inr hl
    · rw [if_neg hk] at hchild
      exact .inr (hchild A m hm)

/-- The routes of a node other than that of one pattern. -/
def Only (K : Pattern) (n : SegmentTreeNode R) : Prop := ∀ K' r, routeAt K' n = some r → K' = K

/-- What a report through a splat is right about: either another pattern goes on through the
splat, or no other goes through the node that passes it on.  At the root, whose report is
ignored, the splats that come first do not matter. -/
def SplatsRight (root : Prop) (K : Pattern) (n : SegmentTreeNode R) : Prop :=
  ∀ A B, K = A ++ .splat :: B → (root → ∃ k ∈ A, k ≠ .splat) →
    (∃ K' r, routeAt K' n = some r ∧ K' ≠ K ∧ A ++ [.splat] <+: K') ∨
    (∀ K' r, routeAt K' n = some r → K' ≠ K → ¬ A <+: K')

theorem SplatsRight.child {root root' : Prop} {n c : SegmentTreeNode R} {k : Segment} {K : Pattern}
    (h : SplatsRight root (k :: K) n) (hroot : root → k = .splat → root')
    (hc : n.child k = some c) : SplatsRight root' K c := by
  intro A B hK hA
  have hroute : ∀ K' r, routeAt (k :: K') n = some r ↔ routeAt K' c = some r := by
    intro K' r
    rw [routeAt_cons, hc]
    rfl
  have hA' : root → ∃ k' ∈ k :: A, k' ≠ .splat := by
    intro hr
    by_cases hk : k = .splat
    · obtain ⟨k', hk', hne⟩ := hA (hroot hr hk)
      exact ⟨k', List.mem_cons_of_mem _ hk', hne⟩
    · exact ⟨k, List.mem_cons_self, hk⟩
  rcases h (k :: A) B (by rw [hK]; rfl) hA' with ⟨K', r, hr, hne, hpre⟩ | hnone
  · obtain ⟨F, rfl⟩ := hpre
    refine .inl ⟨A ++ [.splat] ++ F, r, (hroute _ r).mp (by simpa using hr), fun h => ?_,
      List.prefix_append _ _⟩
    exact hne (by rw [← h]; simp)
  · refine .inr fun K' r hr hne hpre => hnone (k :: K') r ((hroute K' r).mpr hr) ?_ ?_
    · exact fun h => hne (List.cons.inj h).2
    · exact (List.prefix_cons_inj k).mpr hpre

theorem routeAt_putChild {n c c' : SegmentTreeNode R} {k : Segment} {K : Pattern}
    (hd : n.DistinctHere) (hc : n.child k = some c)
    (h : ∀ K', routeAt K' c' = if K' = K then none else routeAt K' c) (K' : Pattern) :
    routeAt K' (n.putChild .back k c') = if K' = k :: K then none else routeAt K' n := by
  cases K' with
  | nil =>
    rw [if_neg (by simp), routeAt_nil, routeAt_nil]
    by_cases hk : k = .splat
    · rw [hk]
      rfl
    · rw [putChild_of_ne_splat .back hk, route_setCollection]
  | cons k' K' =>
    rw [routeAt_cons, routeAt_cons]
    by_cases hk : k' = k
    · subst hk
      rw [child_putChild_self, hc, Option.bind_some, Option.bind_some, h K']
      simp
    · rw [child_putChild_ne .back hd c' hk, if_neg fun h => hk (List.cons.inj h).1]

theorem routeAt_eraseChild {n c : SegmentTreeNode R} {k : Segment} {K : Pattern}
    (hd : n.DistinctHere) (hk : k ≠ .splat) (hc : n.child k = some c) (h : Only K c)
    (K' : Pattern) :
    routeAt K' (n.eraseChild k) = if K' = k :: K then none else routeAt K' n := by
  cases K' with
  | nil =>
    rw [if_neg (by simp), routeAt_nil, routeAt_nil, route_eraseChild]
  | cons k' K' =>
    rw [routeAt_cons, routeAt_cons]
    by_cases hkk : k' = k
    · subst hkk
      rw [child_eraseChild_self hd hk, hc, Option.bind_some, Option.bind_none]
      split
      · rfl
      · next hne =>
        cases hr : routeAt K' c with
        | none => rfl
        | some r => exact absurd (congrArg (k' :: ·) (h K' r hr)) hne
    · rw [child_eraseChild_ne hk hkk, if_neg fun h => hkk (List.cons.inj h).1]

theorem Live.putChild {n c : SegmentTreeNode R} (h : n.Live) (hd : n.DistinctHere) (hc : c.Live)
    (k : Segment) : (n.putChild .back k c).Live := by
  refine live_of_children ?_ fun k' c' hc' => ?_
  · obtain ⟨B, r, hB⟩ := hc.leads
    exact ⟨k :: B, r, by rw [routeAt_cons, child_putChild_self]; exact hB⟩
  · by_cases hk : k' = k
    · rw [hk, child_putChild_self] at hc'
      obtain rfl := Option.some.inj hc'
      exact hc
    · rw [child_putChild_ne .back hd c hk] at hc'
      exact h.child hc'

/-- A node that is not empty and whose children are live is live. -/
theorem live_of_not_isEmpty {n : SegmentTreeNode R} (hne : n.isEmpty = false)
    (h : ∀ k c, n.child k = some c → c.Live) : n.Live := by
  refine live_of_children ?_ h
  by_cases hr : n.route = none
  · have hchild : ∃ k c, n.child k = some c := by
      by_contra hno
      have : n.isEmpty = true := isEmpty_iff.mpr ⟨hr, fun k => by
        by_contra hk
        obtain ⟨c, hc⟩ := Option.ne_none_iff_exists'.mp hk
        exact hno ⟨k, c, hc⟩⟩
      rw [hne] at this
      cases this
    obtain ⟨k, c, hc⟩ := hchild
    obtain ⟨B, r, hB⟩ := (h k c hc).leads
    exact ⟨k :: B, r, by rw [routeAt_cons, hc]; exact hB⟩
  · obtain ⟨r, hr⟩ := Option.ne_none_iff_exists'.mp hr
    exact ⟨[], r, hr⟩

theorem only_of_routes {n n' : SegmentTreeNode R} {K : Pattern} (hempty : n'.isEmpty = true)
    (h : ∀ K', routeAt K' n' = if K' = K then none else routeAt K' n) : Only K n := by
  intro K' r hr
  by_contra hne
  have h' := h K'
  rw [if_neg hne, hr] at h'
  obtain ⟨hroute, hchild⟩ := isEmpty_iff.mp hempty
  cases K' with
  | nil => rw [routeAt_nil, hroute] at h'; cases h'
  | cons k K' => rw [routeAt_cons, hchild] at h'; cases h'

/-- The end of a removal. -/
abbrev unrouted (n : SegmentTreeNode R) : SegmentTreeNode R := { n with route := none }

theorem child_unrouted (n : SegmentTreeNode R) (k : Segment) : n.unrouted.child k = n.child k := by
  cases k <;> rfl

theorem routeAt_unrouted (n : SegmentTreeNode R) (K : Pattern) :
    routeAt K n.unrouted = if K = [] then none else routeAt K n := by
  cases K with
  | nil => rfl
  | cons k K => rw [routeAt_cons, child_unrouted, if_neg (by simp), routeAt_cons]

theorem distinct_unrouted {n : SegmentTreeNode R} (hd : n.Distinct) : n.unrouted.Distinct := by
  intro A m hm
  cases A with
  | nil =>
    obtain rfl := Option.some.inj hm
    intro type
    have := hd.here type
    cases type <;> exact this
  | cons k A =>
    rw [nodeAt_cons, child_unrouted] at hm
    exact hd (k :: A) m hm

/-- **What a removal does to a tree in which every node leads to a route**: it says that the tree
may go, and then no other route is in it; or it leaves the other routes, and every node still
leads to one. -/
theorem prune_live (K : Pattern) : ∀ {n n' : SegmentTreeNode R} {b : Bool} {r : R}, n.Distinct →
    n.Live → SplatsRight False K n → routeAt K n = some r → prune K n = some (n', b) →
    if b then Only K n
    else n'.Distinct ∧ n'.Live ∧ ∀ K', routeAt K' n' = if K' = K then none else routeAt K' n := by
  induction K with
  | nil =>
    intro n n' b r hd hlive _ hr h
    obtain ⟨rfl, rfl⟩ := Prod.mk.inj (Option.some.inj h)
    split
    · next hempty => exact only_of_routes hempty (routeAt_unrouted n)
    · next hempty =>
      refine ⟨distinct_unrouted hd, ?_, routeAt_unrouted n⟩
      refine live_of_not_isEmpty (by simpa using hempty) fun k c hc => ?_
      exact hlive.child (by rw [← child_unrouted]; exact hc)
  | cons k K ih =>
    intro n n' b r hd hlive hright hr h
    rw [routeAt_cons] at hr
    obtain ⟨c, hc, hr⟩ := Option.bind_eq_some_iff.mp hr
    rw [prune, hc, Option.bind_some] at h
    obtain ⟨⟨c', b'⟩, hprune, h⟩ := Option.map_eq_some_iff.mp h
    have hih := ih (hd.child hc) (hlive.child hc) (hright.child False.elim hc) hr hprune
    by_cases hk : k = .splat
    · rw [if_pos hk] at h
      obtain ⟨rfl, rfl⟩ := Prod.mk.inj h
      cases b' with
      | true =>
        -- the splat reports to be empty: then nothing else may go through this node
        simp only [if_true] at hih ⊢
        intro K' r' hr'
        by_contra hne
        rcases hright [] K (by rw [hk]; rfl) False.elim with ⟨K'', r'', hr'', hne'', hpre⟩ | hnone
        · obtain ⟨F, rfl⟩ := hpre
          rw [List.nil_append, List.singleton_append, ← hk, routeAt_cons, hc] at hr''
          exact hne'' (by rw [hih F r'' hr'', hk]; rfl)
        · exact hnone K' r' hr' hne List.nil_prefix
      | false =>
        simp only [Bool.false_eq_true, if_false] at hih ⊢
        obtain ⟨hd', hlive', hroutes⟩ := hih
        exact ⟨hd.putChild .back hd' k, hlive.putChild hd.here hlive' k,
          routeAt_putChild hd.here hc hroutes⟩
    · rw [if_neg hk] at h
      cases b' with
      | true =>
        simp only [if_true] at hih h
        obtain ⟨rfl, rfl⟩ := Prod.mk.inj h
        have hroutes := routeAt_eraseChild hd.here hk hc hih
        split
        · next hempty => exact only_of_routes hempty hroutes
        · next hempty =>
          refine ⟨distinct_eraseChild hd hk, live_of_not_isEmpty (by simpa using hempty) ?_, hroutes⟩
          intro k' d hd''
          by_cases hkk : k' = k
          · rw [hkk, child_eraseChild_self hd.here hk] at hd''
            cases hd''
          · rw [child_eraseChild_ne hk hkk] at hd''
            exact hlive.child hd''
      | false =>
        simp only [Bool.false_eq_true, if_false] at hih h
        obtain ⟨rfl, rfl⟩ := Prod.mk.inj h
        obtain ⟨hd', hlive', hroutes⟩ := hih
        rw [not_isEmpty_of_child (child_putChild_self .back n c' k)]
        simp only [Bool.false_eq_true, if_false]
        exact ⟨hd.putChild .back hd' k, hlive.putChild hd.here hlive' k,
          routeAt_putChild hd.here hc hroutes⟩

theorem LiveRoot.putChild {n c : SegmentTreeNode R} (h : n.LiveRoot) (hd : n.DistinctHere)
    {k : Segment} (hc : if k = .splat then c.LiveRoot else c.Live) :
    (n.putChild .back k c).LiveRoot := by
  refine liveRoot_of_children fun k' c' hc' => ?_
  by_cases hk : k' = k
  · rw [hk, child_putChild_self] at hc'
    obtain rfl := Option.some.inj hc'
    rw [hk]
    exact hc
  · rw [child_putChild_ne .back hd c hk] at hc'
    split
    · next hs => exact h.splat (by rw [hs] at hc'; exact hc')
    · next hs => exact h.child hs hc'

/-- **What a removal does at the root.** -/
theorem prune_root (K : Pattern) : ∀ {n n' : SegmentTreeNode R} {b : Bool} {r : R}, n.Distinct →
    n.LiveRoot → SplatsRight True K n → routeAt K n = some r → prune K n = some (n', b) →
    n'.Distinct ∧ n'.LiveRoot ∧
      ∀ K', routeAt K' n' = if K' = K then none else routeAt K' n := by
  induction K with
  | nil =>
    intro n n' b r hd hlive _ _ h
    obtain ⟨rfl, -⟩ := Prod.mk.inj (Option.some.inj h)
    refine ⟨distinct_unrouted hd, ?_, routeAt_unrouted n⟩
    refine liveRoot_of_children fun k c hc => ?_
    rw [child_unrouted] at hc
    split
    · next hs => exact hlive.splat (by rw [hs] at hc; exact hc)
    · next hs => exact hlive.child hs hc
  | cons k K ih =>
    intro n n' b r hd hlive hright hr h
    rw [routeAt_cons] at hr
    obtain ⟨c, hc, hr⟩ := Option.bind_eq_some_iff.mp hr
    rw [prune, hc, Option.bind_some] at h
    obtain ⟨⟨c', b'⟩, hprune, h⟩ := Option.map_eq_some_iff.mp h
    by_cases hk : k = .splat
    · rw [if_pos hk] at h
      obtain ⟨rfl, -⟩ := Prod.mk.inj h
      obtain ⟨hd', hlive', hroutes⟩ := ih (hd.child hc) (hlive.splat (by rw [hk] at hc; exact hc))
        (hright.child (fun _ _ => trivial) hc) hr hprune
      exact ⟨hd.putChild .back hd' k, hlive.putChild hd.here (by rw [if_pos hk]; exact hlive'),
        routeAt_putChild hd.here hc hroutes⟩
    · rw [if_neg hk] at h
      have hchild := prune_live K (hd.child hc) (hlive.child hk hc)
        (hright.child (fun _ h => hk h) hc) hr hprune
      cases b' with
      | true =>
        simp only [if_true] at hchild h
        obtain ⟨rfl, -⟩ := Prod.mk.inj h
        refine ⟨distinct_eraseChild hd hk, liveRoot_of_children fun k' d hd' => ?_,
          routeAt_eraseChild hd.here hk hc hchild⟩
        by_cases hkk : k' = k
        · rw [hkk, child_eraseChild_self hd.here hk] at hd'
          cases hd'
        · rw [child_eraseChild_ne hk hkk] at hd'
          split
          · next hs => exact hlive.splat (by rw [hs] at hd'; exact hd')
          · next hs => exact hlive.child hs hd'
      | false =>
        simp only [Bool.false_eq_true, if_false] at hchild h
        obtain ⟨rfl, -⟩ := Prod.mk.inj h
        obtain ⟨hd', hlive', hroutes⟩ := hchild
        exact ⟨hd.putChild .back hd' k, hlive.putChild hd.here (by rw [if_neg hk]; exact hlive'),
          routeAt_putChild hd.here hc hroutes⟩

/-! ## Patterns without a route -/

theorem setRoute_none {n : SegmentTreeNode R} (h : n.route = none) :
    ({ n with route := none } : SegmentTreeNode R) = n := by
  cases n
  cases h
  rfl

theorem prune_absent_live (K : Pattern) : ∀ {n n' : SegmentTreeNode R} {b : Bool}, n.Distinct →
    n.Live → routeAt K n = none → prune K n = some (n', b) → n' = n ∧ b = false := by
  induction K with
  | nil =>
    intro n n' b hd hlive hr h
    obtain ⟨rfl, rfl⟩ := Prod.mk.inj (Option.some.inj h)
    rw [setRoute_none hr]
    refine ⟨rfl, ?_⟩
    by_contra hempty
    obtain ⟨hroute, hchild⟩ := isEmpty_iff.mp (Bool.not_eq_false _ ▸ hempty)
    obtain ⟨B, r, hB⟩ := hlive.leads
    cases B with
    | nil => rw [routeAt_nil, hroute] at hB; cases hB
    | cons k B => rw [routeAt_cons, hchild] at hB; cases hB
  | cons k K ih =>
    intro n n' b hd hlive hr h
    rw [prune] at h
    obtain ⟨c, hc, hmap⟩ := Option.bind_eq_some_iff.mp h
    obtain ⟨⟨c', b'⟩, hprune, hx⟩ := Option.map_eq_some_iff.mp hmap
    rw [routeAt_cons, hc] at hr
    obtain ⟨rfl, rfl⟩ := ih (hd.child hc) (hlive.child hc) hr hprune
    simp only [Bool.false_eq_true, if_false, putChild_same .back hd.here hc,
      not_isEmpty_of_child hc, ite_self] at hx
    obtain ⟨rfl, rfl⟩ := Prod.mk.inj hx
    exact ⟨rfl, rfl⟩

/-- **A pattern without a route**: its removal leaves the tree as it is. -/
theorem prune_absent (K : Pattern) : ∀ {n n' : SegmentTreeNode R} {b : Bool}, n.Distinct →
    n.LiveRoot → routeAt K n = none → prune K n = some (n', b) → n' = n := by
  induction K with
  | nil =>
    intro n n' b _ _ hr h
    obtain ⟨rfl, -⟩ := Prod.mk.inj (Option.some.inj h)
    exact setRoute_none hr
  | cons k K ih =>
    intro n n' b hd hlive hr h
    rw [prune] at h
    obtain ⟨c, hc, hmap⟩ := Option.bind_eq_some_iff.mp h
    obtain ⟨⟨c', b'⟩, hprune, hx⟩ := Option.map_eq_some_iff.mp hmap
    rw [routeAt_cons, hc] at hr
    by_cases hk : k = .splat
    · obtain rfl := ih (hd.child hc) (hlive.splat (by rw [hk] at hc; exact hc)) hr hprune
      rw [if_pos hk, putChild_same .back hd.here hc] at hx
      exact (Prod.mk.inj hx).1.symm
    · obtain ⟨rfl, rfl⟩ := prune_absent_live K (hd.child hc) (hlive.child hk hc) hr hprune
      rw [if_neg hk] at hx
      simp only [Bool.false_eq_true, if_false, putChild_same .back hd.here hc] at hx
      exact (Prod.mk.inj hx).1.symm

/-! ## Removals from any tree -/

/-- A pattern with a route can be removed. -/
theorem prune_of_routeAt (K : Pattern) : ∀ {n : SegmentTreeNode R}, routeAt K n ≠ none →
    ∃ x, prune K n = some x := by
  induction K with
  | nil => exact fun _ => ⟨_, rfl⟩
  | cons k K ih =>
    intro n hn
    rw [routeAt_cons] at hn
    cases hc : n.child k with
    | none => rw [hc] at hn; exact absurd rfl hn
    | some c =>
      rw [hc] at hn
      obtain ⟨x, hx⟩ := ih hn
      rw [prune, hc, Option.bind_some, hx]
      exact ⟨_, rfl⟩

/-- Whatever else it takes away, a removal brings no route and takes its own. -/
theorem prune_sound (K : Pattern) : ∀ {n n' : SegmentTreeNode R} {b : Bool}, n.Distinct →
    prune K n = some (n', b) →
    n'.Distinct ∧ ∀ K' r, routeAt K' n' = some r → routeAt K' n = some r ∧ K' ≠ K := by
  induction K with
  | nil =>
    intro n n' b hd h
    obtain ⟨rfl, -⟩ := Prod.mk.inj (Option.some.inj h)
    refine ⟨distinct_unrouted hd, fun K' r hr => ?_⟩
    rw [routeAt_unrouted] at hr
    split at hr
    · cases hr
    · next hne => exact ⟨hr, hne⟩
  | cons k K ih =>
    intro n n' b hd h
    rw [prune] at h
    obtain ⟨c, hc, hmap⟩ := Option.bind_eq_some_iff.mp h
    obtain ⟨⟨c', b'⟩, hprune, hx⟩ := Option.map_eq_some_iff.mp hmap
    obtain ⟨hd', hroutes⟩ := ih (hd.child hc) hprune
    have hput : (n.putChild .back k c').Distinct ∧ ∀ K' r,
        routeAt K' (n.putChild .back k c') = some r → routeAt K' n = some r ∧ K' ≠ k :: K := by
      refine ⟨hd.putChild .back hd' k, fun K' r hr => ?_⟩
      cases K' with
      | nil =>
        rw [routeAt_nil, route_putChild] at hr
        exact ⟨hr, by simp⟩
      | cons k' K' =>
        rw [routeAt_cons] at hr ⊢
        by_cases hkk : k' = k
        · rw [hkk, child_putChild_self, Option.bind_some] at hr
          rw [hkk, hc, Option.bind_some]
          exact ⟨(hroutes K' r hr).1, fun h => (hroutes K' r hr).2 (List.cons.inj h).2⟩
        · rw [child_putChild_ne .back hd.here c' hkk] at hr
          exact ⟨hr, fun h => hkk (List.cons.inj h).1⟩
    have herase : k ≠ .splat → (n.eraseChild k).Distinct ∧ ∀ K' r,
        routeAt K' (n.eraseChild k) = some r → routeAt K' n = some r ∧ K' ≠ k :: K := by
      intro hk
      refine ⟨distinct_eraseChild hd hk, fun K' r hr => ?_⟩
      cases K' with
      | nil =>
        rw [routeAt_nil, route_eraseChild] at hr
        exact ⟨hr, by simp⟩
      | cons k' K' =>
        rw [routeAt_cons] at hr ⊢
        by_cases hkk : k' = k
        · rw [hkk, child_eraseChild_self hd.here hk, Option.bind_none] at hr
          cases hr
        · rw [child_eraseChild_ne hk hkk] at hr
          exact ⟨hr, fun h => hkk (List.cons.inj h).1⟩
    split at hx
    · obtain ⟨rfl, -⟩ := Prod.mk.inj hx
      exact hput
    · next hk =>
      cases b' with
      | true =>
        obtain ⟨rfl, -⟩ := Prod.mk.inj hx
        exact herase hk
      | false =>
        obtain ⟨rfl, -⟩ := Prod.mk.inj hx
        exact hput

/-! ## Building a tree again -/

theorem sizeOf_child {n c : SegmentTreeNode R} {k : Segment} (hc : n.child k = some c) :
    sizeOf c < sizeOf n := by
  have hmem : ∀ (children : Children R) (key : Bytes), children.dlookup key = some c →
      sizeOf c < sizeOf children := by
    intro children key h
    have hlt := List.sizeOf_lt_of_mem (List.of_mem_dlookup h)
    simp only [Sigma.mk.sizeOf_spec] at hlt
    omega
  obtain ⟨fixed, param, optional, splat, route⟩ := n
  simp only [mk.sizeOf_spec]
  cases k with
  | fixed text =>
    have := hmem fixed text hc
    omega
  | param name =>
    have := hmem param name hc
    omega
  | optional name =>
    have := hmem optional name hc
    omega
  | splat =>
    obtain rfl : splat = some c := hc
    simp only [Option.some.sizeOf_spec]
    omega

/-- Induction over a tree from the children up. -/
theorem induct {motive : SegmentTreeNode R → Prop}
    (node : ∀ n, (∀ k c, n.child k = some c → motive c) → motive n) (n : SegmentTreeNode R) :
    motive n :=
  node n fun _ c hc =>
    have := sizeOf_child hc
    induct node c
termination_by sizeOf n

/-- Routes put one after the other, each at a pattern without one. -/
def addPatterns : List (Pattern × R) → SegmentTreeNode R → Option (SegmentTreeNode R)
  | [], n => some n
  | (K, r) :: L, n =>
    if routeAt K n = none then addPatterns L (put .back (some r) K n) else none

theorem addPatterns_append (L L' : List (Pattern × R)) : ∀ n : SegmentTreeNode R,
    addPatterns (L ++ L') n = (addPatterns L n).bind (addPatterns L') := by
  induction L with
  | nil => exact fun _ => rfl
  | cons e L ih =>
    intro n
    rw [List.cons_append, addPatterns, addPatterns]
    split
    · exact ih _
    · rfl

theorem putChild_putChild (n c c' : SegmentTreeNode R) (k : Segment) :
    (n.putChild .back k c).putChild .back k c' = n.putChild .back k c' := by
  by_cases hk : k = .splat
  · rw [hk]
    rfl
  · rw [putChild_existing .back hk (child_putChild_self .back n c k),
      putChild_of_ne_splat .back hk, putChild_of_ne_splat .back hk,
      collection_setCollection (type_ne_splat hk)]
    obtain ⟨l₁, l₂, -, hnot, hrep, -⟩ :=
      Assoc.dlookup_split (dlookup_opened_self .back k.key (n.collection k.type))
    rw [hrep c, hrep c', Assoc.kreplace_middle hnot]
    obtain ⟨fixed, param, optional, splat, route⟩ := n
    cases k <;> rfl

theorem addPatterns_child (L : List (Pattern × R)) (k : Segment) (n : SegmentTreeNode R) :
    ∀ {c c' : SegmentTreeNode R}, addPatterns L c = some c' →
      addPatterns (L.map fun e => (k :: e.1, e.2)) (n.putChild .back k c) =
        some (n.putChild .back k c') := by
  induction L with
  | nil =>
    intro c c' h
    obtain rfl := Option.some.inj h
    rfl
  | cons e L ih =>
    obtain ⟨K, r⟩ := e
    intro c c' h
    rw [addPatterns] at h
    split at h
    · next hfree =>
      rw [List.map_cons, addPatterns, routeAt_cons, child_putChild_self, Option.bind_some,
        if_pos hfree, put, child_putChild_self, Option.getD_some, putChild_putChild]
      exact ih h
    · cases h

/-- The routes of a child, put below a node that has no such child. -/
theorem addPatterns_hang {L : List (Pattern × R)} (hL : L ≠ []) {k : Segment}
    {n c : SegmentTreeNode R} (hnone : n.child k = none) (h : addPatterns L empty = some c) :
    addPatterns (L.map fun e => (k :: e.1, e.2)) n = some (n.putChild .back k c) := by
  obtain ⟨⟨K, r⟩, L, rfl⟩ := List.exists_cons_of_ne_nil hL
  rw [addPatterns] at h
  split at h
  · rw [List.map_cons, addPatterns, routeAt_cons, hnone, Option.bind_none, if_pos rfl, put, hnone,
      Option.getD_none]
    exact addPatterns_child L k n h
  · cases h

/-- The segment of an entry in a collection. -/
def segmentIn : SegmentType → Bytes → Segment
  | .fixed, key => .fixed key
  | .param, key => .param key
  | .optional, key => .optional key
  | .splat, _ => .splat

theorem putChild_back {type : SegmentType} (ht : type ≠ .splat) {n : SegmentTreeNode R}
    {key : Bytes} (hnone : (n.collection type).dlookup key = none) (c : SegmentTreeNode R) :
    n.putChild .back (segmentIn type key) c =
      n.setCollection type (n.collection type ++ [⟨key, c⟩]) := by
  have hins : (opened .back key (n.collection type)).kreplace key c =
      n.collection type ++ [⟨key, c⟩] :=
    opened_kreplace .back hnone (List.append_nil _).symm rfl c
  rw [← hins]
  cases type <;> first | rfl | exact absurd rfl ht

/-- The routes of a collection, put entry after entry. -/
theorem addPatterns_collection (type : SegmentType) (ht : type ≠ .splat) (l : Children R) :
    ∀ n : SegmentTreeNode R, (n.collection type ++ l).NodupKeys →
      (∀ entry ∈ l, ∃ L, L ≠ [] ∧ addPatterns L empty = some entry.2 ∧
        ∀ K r, (K, r) ∈ L ↔ routeAt K entry.2 = some r) →
      ∃ L, addPatterns L n = some (n.setCollection type (n.collection type ++ l)) ∧
        ∀ K r, (K, r) ∈ L ↔ ∃ key c K', ⟨key, c⟩ ∈ l ∧ K = segmentIn type key :: K' ∧
          routeAt K' c = some r := by
  induction l with
  | nil =>
    intro n _ _
    refine ⟨[], ?_, fun K r => by simp⟩
    rw [List.append_nil, setCollection_self]
    rfl
  | cons entry l ih =>
    obtain ⟨key, c⟩ := entry
    intro n hnodup hbuild
    obtain ⟨Lc, hne, hLc, hroutes⟩ := hbuild ⟨key, c⟩ List.mem_cons_self
    have hnone : (n.collection type).dlookup key = none := by
      rw [List.dlookup_eq_none]
      rw [List.nodupKeys_middle] at hnodup
      intro hin
      have := List.notMem_keys_of_nodupKeys_cons hnodup
      exact this (by rw [List.keys_append]; exact List.mem_append_left _ hin)
    have hchild : n.child (segmentIn type key) = none := by
      cases type <;> first | exact hnone | exact absurd rfl ht
    have hcol := collection_setCollection ht n (n.collection type ++ [⟨key, c⟩])
    have hset : ∀ children, (n.setCollection type (n.collection type ++ [⟨key, c⟩])).setCollection
        type children = n.setCollection type children := by
      intro children
      cases type <;> rfl
    obtain ⟨L, hL, hmem⟩ := ih (n.setCollection type (n.collection type ++ [⟨key, c⟩]))
      (by rw [hcol, List.append_assoc]; exact hnodup)
      (fun entry hentry => hbuild entry (List.mem_cons_of_mem _ hentry))
    refine ⟨Lc.map (fun e => (segmentIn type key :: e.1, e.2)) ++ L, ?_, fun K r => ?_⟩
    · rw [addPatterns_append, addPatterns_hang hne hchild hLc, Option.bind_some,
        putChild_back ht hnone, hL, hset, hcol, List.append_assoc]
      rfl
    · rw [List.mem_append, hmem]
      constructor
      · rintro (hin | ⟨key', c', K', hin, hK, hr⟩)
        · obtain ⟨⟨K', r'⟩, he, heq⟩ := List.mem_map.mp hin
          obtain ⟨rfl, rfl⟩ := Prod.mk.inj heq
          exact ⟨key, c, K', List.mem_cons_self, rfl, (hroutes K' r').mp he⟩
        · exact ⟨key', c', K', List.mem_cons_of_mem _ hin, hK, hr⟩
      · rintro ⟨key', c', K', hin, hK, hr⟩
        rcases List.mem_cons.mp hin with heq | hin
        · cases heq
          exact .inl (List.mem_map.mpr ⟨(K', r), (hroutes K' r).mpr hr, by rw [hK]⟩)
        · exact .inr ⟨key', c', K', hin, hK, hr⟩

theorem Live.root {n : SegmentTreeNode R} (h : n.Live) : n.LiveRoot :=
  fun A m hm => .inr (h A m hm)

/-- What is needed to build a node again: its routes, and the tree they give. -/
def Rebuilt (n : SegmentTreeNode R) : Prop :=
  ∃ L u, addPatterns L empty = some u ∧ (∀ K r, (K, r) ∈ L ↔ routeAt K n = some r) ∧
    (∀ p, find p u = find p n) ∧ (n.Live → u = n)

/-- A live child is built exactly, from at least one route. -/
theorem Rebuilt.live {c : SegmentTreeNode R} (h : c.Rebuilt) (hc : c.Live) :
    ∃ L, L ≠ [] ∧ addPatterns L empty = some c ∧ ∀ K r, (K, r) ∈ L ↔ routeAt K c = some r := by
  obtain ⟨L, u, hL, hroutes, -, heq⟩ := h
  obtain ⟨B, r, hB⟩ := hc.leads
  have hmem := (hroutes B r).mpr hB
  exact ⟨L, fun h => (by rw [h] at hmem; cases hmem), heq hc ▸ hL, hroutes⟩

/-- The collections and the route of a node, built on an empty one. -/
theorem addPatterns_body {n : SegmentTreeNode R} (hd : n.Distinct) (hlive : n.LiveRoot)
    (hbuild : ∀ k c, n.child k = some c → c.Rebuilt) :
    ∃ L, addPatterns L empty = some { n with splat := none } ∧
      ∀ K r, (K, r) ∈ L ↔ routeAt K { n with splat := none } = some r := by
  have hentries : ∀ type, type ≠ .splat → ∀ entry ∈ n.collection type, ∃ L, L ≠ [] ∧
      addPatterns L empty = some entry.2 ∧ ∀ K r, (K, r) ∈ L ↔ routeAt K entry.2 = some r := by
    intro type ht entry hentry
    have hc : n.child (segmentIn type entry.1) = some entry.2 := by
      have hlook := List.mem_dlookup (hd.here type) hentry
      cases type <;> first | exact hlook | exact absurd rfl ht
    have hne : segmentIn type entry.1 ≠ .splat := by
      cases type <;> first | exact absurd rfl ht | simp [segmentIn]
    exact (hbuild _ _ hc).live (hlive.child hne hc)
  obtain ⟨L₀, hL₀, hmem₀⟩ : ∃ L, addPatterns L (empty : SegmentTreeNode R) =
      some { empty with route := n.route } ∧ ∀ K r, (K, r) ∈ L ↔ K = [] ∧ n.route = some r := by
    cases hr : n.route with
    | none => exact ⟨[], rfl, fun K r => by simp⟩
    | some r => exact ⟨[([], r)], rfl, fun K r' => by simp [eq_comm]⟩
  obtain ⟨L₁, hL₁, hmem₁⟩ := addPatterns_collection .fixed (by decide) n.fixed
    ({ empty with route := n.route }) (hd.here .fixed) (hentries .fixed (by decide))
  obtain ⟨L₂, hL₂, hmem₂⟩ := addPatterns_collection .param (by decide) n.param
    ({ empty with fixed := n.fixed, route := n.route }) (hd.here .param)
    (hentries .param (by decide))
  obtain ⟨L₃, hL₃, hmem₃⟩ := addPatterns_collection .optional (by decide) n.optional
    ({ empty with fixed := n.fixed, param := n.param, route := n.route }) (hd.here .optional)
    (hentries .optional (by decide))
  refine ⟨L₀ ++ L₁ ++ L₂ ++ L₃, ?_, fun K r => ?_⟩
  · rw [addPatterns_append, addPatterns_append, addPatterns_append, hL₀, Option.bind_some, hL₁,
      Option.bind_some]
    exact (congrArg (Option.bind · (addPatterns L₃)) hL₂).trans hL₃
  · simp only [List.mem_append, hmem₀, hmem₁, hmem₂, hmem₃]
    have hchild : ∀ k, k ≠ .splat →
        ({ n with splat := none } : SegmentTreeNode R).child k = n.child k := by
      intro k hk
      cases k <;> first | rfl | exact absurd rfl hk
    have hvia : ∀ type, type ≠ .splat → ((∃ key c K', ⟨key, c⟩ ∈ n.collection type ∧
        K = segmentIn type key :: K' ∧ routeAt K' c = some r) ↔
          ∃ key K', K = segmentIn type key :: K' ∧
            (n.child (segmentIn type key)).bind (routeAt K') = some r) := by
      intro type ht
      have hlook : ∀ key, n.child (segmentIn type key) = (n.collection type).dlookup key := by
        intro key
        cases type <;> first | rfl | exact absurd rfl ht
      constructor
      · rintro ⟨key, c, K', hin, hK, hr⟩
        refine ⟨key, K', hK, ?_⟩
        rw [hlook, List.mem_dlookup (hd.here type) hin]
        exact hr
      · rintro ⟨key, K', hK, hr⟩
        obtain ⟨c, hc, hr⟩ := Option.bind_eq_some_iff.mp hr
        rw [hlook] at hc
        exact ⟨key, c, K', List.of_mem_dlookup hc, hK, hr⟩
    have h₁ := hvia .fixed (by decide)
    have h₂ := hvia .param (by decide)
    have h₃ := hvia .optional (by decide)
    rw [show ((∃ key c K', ⟨key, c⟩ ∈ n.fixed ∧ K = segmentIn .fixed key :: K' ∧
        routeAt K' c = some r) ↔ _) from h₁,
      show ((∃ key c K', ⟨key, c⟩ ∈ n.param ∧ K = segmentIn .param key :: K' ∧
        routeAt K' c = some r) ↔ _) from h₂,
      show ((∃ key c K', ⟨key, c⟩ ∈ n.optional ∧ K = segmentIn .optional key :: K' ∧
        routeAt K' c = some r) ↔ _) from h₃]
    cases K with
    | nil => simp [routeAt_nil]
    | cons k K =>
      rw [routeAt_cons]
      cases k with
      | splat => simp [segmentIn, child]
      | fixed text => rw [hchild _ (by simp)]; simp [segmentIn]
      | param name => rw [hchild _ (by simp)]; simp [segmentIn]
      | optional name => rw [hchild _ (by simp)]; simp [segmentIn]

theorem find_eq_none_of_routes {n : SegmentTreeNode R} (hd : n.Distinct)
    (h : ∀ K, routeAt K n = none) (p : List Bytes) : find p n = none := by
  by_contra hne
  obtain ⟨⟨K, r⟩, he⟩ := Option.ne_none_iff_exists'.mp hne
  have := (find_sound hd he).1
  rw [h K] at this
  cases this

/-- **A tree in which every node leads to a route is built again by adding its routes**; splats
at the root that lead to none do not change what is found. -/
theorem rebuild (n : SegmentTreeNode R) : n.Distinct → n.LiveRoot → n.Rebuilt := by
  induction n using induct with
  | node n ih =>
    intro hd hlive
    have hbuild : ∀ k c, n.child k = some c → c.Rebuilt := by
      intro k c hc
      by_cases hk : k = .splat
      · exact ih k c hc (hd.child hc) (hlive.splat (by rw [hk] at hc; exact hc))
      · exact ih k c hc (hd.child hc) (hlive.child hk hc).root
    obtain ⟨L, hL, hmem⟩ := addPatterns_body hd hlive hbuild
    have hsplat : ∀ K r, routeAt K n = some r ↔ routeAt K { n with splat := none } = some r ∨
        ∃ K', K = .splat :: K' ∧ n.splat.bind (routeAt K') = some r := by
      intro K r
      cases K with
      | nil => simp [routeAt_nil]
      | cons k K => cases k <;> simp [routeAt_cons, child, collection, Segment.type, Segment.key]
    cases hs : n.splat with
    | none =>
      have hn : ({ n with splat := none } : SegmentTreeNode R) = n := by
        cases n
        cases hs
        rfl
      rw [hn] at hL hmem
      exact ⟨L, n, hL, hmem, fun _ => rfl, fun _ => rfl⟩
    | some c =>
      obtain ⟨Lc, u, hLc, hmemc, hfind, heq⟩ := hbuild .splat c hs
      have hcd : c.Distinct := hd.child (k := .splat) hs
      have hnc : ({ n with splat := none } : SegmentTreeNode R).putChild .back .splat c = n := by
        cases n
        cases hs
        rfl
      rw [hs] at hsplat
      by_cases hLc0 : Lc = []
      · have hnoroute : ∀ K, routeAt K c = none := by
          intro K
          cases hr : routeAt K c with
          | none => rfl
          | some r =>
            have := (hmemc K r).mpr hr
            rw [hLc0] at this
            cases this
        refine ⟨L, _, hL, fun K r => ?_, fun p => ?_, fun hl => ?_⟩
        · rw [hmem, hsplat]
          simp [hnoroute]
        · have hd0 : ({ n with splat := none } : SegmentTreeNode R).DistinctHere := by
            intro type
            have := hd.here type
            cases type <;> exact this
          have h := find_putChild_dead .back (b := c) hd0 (k := .splat) rfl
            (find_eq_none_of_routes hcd hnoroute) trivial p
          rw [hnc] at h
          exact h.symm
        · obtain ⟨B, r, hB⟩ := (hl.child (k := .splat) hs).leads
          rw [hnoroute B] at hB
          cases hB
      · refine ⟨L ++ Lc.map (fun e => (.splat :: e.1, e.2)),
          ({ n with splat := none } : SegmentTreeNode R).putChild .back .splat u, ?_,
          fun K r => ?_, fun p => ?_, fun hl => ?_⟩
        · rw [addPatterns_append, hL, Option.bind_some]
          exact addPatterns_hang hLc0 rfl hLc
        · rw [List.mem_append, hmem, hsplat]
          refine or_congr Iff.rfl ?_
          constructor
          · intro hin
            obtain ⟨⟨K', r'⟩, he, hKr⟩ := List.mem_map.mp hin
            obtain ⟨rfl, rfl⟩ := Prod.mk.inj hKr
            exact ⟨K', rfl, (hmemc K' r').mp he⟩
          · rintro ⟨K', rfl, hr⟩
            exact List.mem_map.mpr ⟨(K', r), (hmemc K' r).mpr hr, rfl⟩
        · exact find_putChild .back hd.here (k := .splat) hs hfind p
        · rw [heq (hl.child (k := .splat) hs)]
          exact hnc

end SegmentTreeNode

/-! ## Runs of additions and removals -/

section Runs

variable {R : Type}

inductive Call (R : Type) where
  | add (call : AddCall R)
  | remove (path : Bytes)

/-- The tree after a call; a call that throws may have changed it. -/
def Call.run : Call R → SegmentTreeNode R → SegmentTreeNode R
  | .add call, t => (t.addRoute call.order call.path call.handler).1
  | .remove path, t =>
    match t.removeRoute path with
    | .ok (t', _) => t'
    | .error _ => t

/-- The patterns registered, with their routes. -/
abbrev Table (R : Type) := List (Pattern × R)

/-- What a call is meant to do: register a new pattern, or drop one. -/
def Call.register : Call R → Table R → Table R
  | .add call, T =>
    match patternOf (segments call.path) with
    | .ok K => if K ∈ T.map Prod.fst then T else T ++ [(K, call.handler)]
    | .error _ => T
  | .remove path, T =>
    match patternOf (segments path) with
    | .ok K => T.filter fun e => e.1 ≠ K
    | .error _ => T

/-- Where the pattern goes through a splat, below a segment that is none, either another pattern
goes through that splat as well, or no other goes to the node of the splat. -/
def RemovesAlone (T : Table R) (K : Pattern) : Prop :=
  ∀ A B, K = A ++ .splat :: B → (∃ k ∈ A, k ≠ .splat) →
    (∃ e ∈ T, e.1 ≠ K ∧ A ++ [.splat] <+: e.1) ∨ (∀ e ∈ T, e.1 ≠ K → ¬ A <+: e.1)

/-- A bad path creates no node, and a pattern that is removed is removed alone. -/
def Call.Careful (T : Table R) : Call R → Prop
  | .add call => ∀ e, patternOf (segments call.path) = .error e →
      goodPart (segments call.path) = [] ∨ ∃ e ∈ T, goodPart (segments call.path) <+: e.1
  | .remove path => ∀ K, patternOf (segments path) = .ok K → K ∈ T.map Prod.fst → RemovesAlone T K

/-- The tree and the table after some calls of which all were careful. -/
inductive Run : SegmentTreeNode R → Table R → Prop where
  | start : Run .empty []
  | call {t T} (c : Call R) : Run t T → c.Careful T → Run (c.run t) (c.register T)

/-- The tree holds the routes of the table, and every node leads to one. -/
structure Holds (t : SegmentTreeNode R) (T : Table R) : Prop where
  distinct : t.Distinct
  live : t.LiveRoot
  routes : ∀ K r, routeAt K t = some r ↔ (K, r) ∈ T
  paths : ∀ e ∈ T, ∃ path, patternOf (segments path) = .ok e.1

theorem Holds.route_none {t : SegmentTreeNode R} {T : Table R} (h : Holds t T) (K : Pattern) :
    routeAt K t = none ↔ K ∉ T.map Prod.fst := by
  constructor
  · intro hnone hin
    obtain ⟨⟨K', r⟩, he, rfl⟩ := List.mem_map.mp hin
    have := (h.routes K' r).mpr he
    rw [hnone] at this
    cases this
  · intro hnot
    cases hr : routeAt K t with
    | none => rfl
    | some r => exact absurd (List.mem_map.mpr ⟨(K, r), (h.routes K r).mp hr, rfl⟩) hnot

theorem nodeAt_of_routeAt {t : SegmentTreeNode R} {A B : Pattern} {r : R}
    (h : routeAt (A ++ B) t = some r) : ∃ m, nodeAt A t = some m ∧ routeAt B m = some r := by
  unfold routeAt at h
  rw [nodeAt_append] at h
  cases hm : nodeAt A t with
  | none => rw [hm] at h; cases h
  | some m =>
    rw [hm] at h
    exact ⟨m, rfl, h⟩

/-- Putting a route keeps every node leading to one. -/
theorem liveRoot_put (order : IterationOrder R) (handler : R) (K : Pattern)
    {t : SegmentTreeNode R} (hd : t.Distinct) (hlive : t.LiveRoot) (hfree : routeAt K t = none) :
    (put order (some handler) K t).LiveRoot := by
  intro A m hm
  have hleads : ∀ B r, routeAt (A ++ B) (put order (some handler) K t) = some r → m.Leads := by
    intro B r h
    obtain ⟨m', hm', hr⟩ := nodeAt_of_routeAt h
    rw [hm] at hm'
    obtain rfl := Option.some.inj hm'
    exact ⟨B, r, hr⟩
  by_cases hpre : A <+: K
  · obtain ⟨Q, rfl⟩ := hpre
    refine .inr (hleads Q handler ?_)
    rw [routeAt_put order _ _ _ hd, if_pos rfl]
    rfl
  · rw [nodeAt_put_other order _ hpre hd] at hm
    rcases hlive A m hm with hall | ⟨B, r, hB⟩
    · exact .inl hall
    · refine .inr (hleads B r ?_)
      have hr : routeAt (A ++ B) t = some r := by
        unfold routeAt
        rw [nodeAt_append, hm]
        exact hB
      have hne : A ++ B ≠ K := by
        intro h
        rw [h, hfree] at hr
        cases hr
      rw [routeAt_put order _ _ _ hd, if_neg hne]
      exact hr

theorem holds_add {t : SegmentTreeNode R} {T : Table R} (h : Holds t T) (call : AddCall R)
    (hcareful : (Call.add call).Careful T) :
    Holds ((Call.add call).run t) ((Call.add call).register T) := by
  rcases addRoute_cases call.order t h.distinct call.path call.handler with
    ⟨K, hK, hfree, heq⟩ | ⟨K, r, hK, hr, heq⟩ | ⟨e, he, heq⟩
  · have hnew := (h.route_none K).mp hfree
    rw [Call.run, Call.register, heq, hK]
    simp only
    rw [if_neg hnew]
    refine ⟨distinct_put _ _ K h.distinct, liveRoot_put _ _ K h.distinct h.live hfree, ?_, ?_⟩
    · intro K' r'
      rw [routeAt_put _ _ _ _ h.distinct, List.mem_append, List.mem_singleton, Prod.mk.injEq,
        ← h.routes]
      by_cases hKK : K' = K
      · rw [if_pos hKK, hKK, hfree]
        simp [eq_comm]
      · rw [if_neg hKK]
        simp [hKK]
    · intro e hin
      rcases List.mem_append.mp hin with hin | hin
      · exact h.paths e hin
      · obtain rfl := List.mem_singleton.mp hin
        exact ⟨call.path, hK⟩
  · have hold : K ∈ T.map Prod.fst := List.mem_map.mpr ⟨(K, r), (h.routes K r).mp hr, rfl⟩
    rw [Call.run, Call.register, heq, hK]
    simp only
    rw [if_pos hold]
    exact h
  · rw [Call.run, Call.register, heq, he]
    simp only
    have hnode : nodeAt (goodPart (segments call.path)) t ≠ none := by
      rcases hcareful e he with hnil | ⟨⟨K, r⟩, hin, hpre⟩
      · rw [hnil]
        simp
      · obtain ⟨B, hB⟩ := hpre
        obtain ⟨m, hm, -⟩ := nodeAt_of_routeAt (B := B) (by rw [hB]; exact (h.routes K r).mpr hin)
        rw [hm]
        simp
    rw [put_none_of_nodeAt _ _ h.distinct hnode]
    exact h

/-- What a removal of a registered pattern gives, when it removes it alone. -/
theorem holds_remove {t : SegmentTreeNode R} {T : Table R} (h : Holds t T) {path : Bytes}
    {K : Pattern} (hK : patternOf (segments path) = .ok K) (hin : K ∈ T.map Prod.fst)
    (halone : RemovesAlone T K) :
    ∃ t' b, t.removeRoute path = .ok (t', b) ∧ Holds t' (T.filter fun e => e.1 ≠ K) := by
  obtain ⟨⟨K₀, r⟩, he, rfl⟩ := List.mem_map.mp hin
  have hr := (h.routes K₀ r).mpr he
  have hright : SplatsRight True K₀ t := by
    intro A B hAB hA
    rcases halone A B hAB (hA trivial) with ⟨⟨K', r'⟩, he', hne, hpre⟩ | hnone
    · exact .inl ⟨K', r', (h.routes K' r').mpr he', hne, hpre⟩
    · exact .inr fun K' r' hr' => hnone (K', r') ((h.routes K' r').mp hr')
  obtain ⟨⟨t', b⟩, hx⟩ := prune_of_routeAt K₀ (n := t) (by rw [hr]; simp)
  obtain ⟨hd', hlive', hroutes'⟩ := prune_root K₀ h.distinct h.live hright hr hx
  refine ⟨t', b, ?_, hd', hlive', fun K' r' => ?_, fun e he => ?_⟩
  · rw [removeRoute, removeSegments_eq _ hK, hx]
  · rw [hroutes', List.mem_filter, ← h.routes]
    by_cases hKK : K' = K₀ <;> simp [hKK]
  · exact h.paths e (List.mem_filter.mp he).1

/-- A removal of a pattern that is not registered leaves the tree as it is. -/
theorem remove_absent {t : SegmentTreeNode R} {T : Table R} (h : Holds t T) {path : Bytes}
    (habsent : ∀ K, patternOf (segments path) = .ok K → K ∉ T.map Prod.fst) :
    (Call.remove path : Call R).run t = t := by
  rw [Call.run]
  cases hK : patternOf (segments path) with
  | error e =>
    obtain ⟨e', he'⟩ := removeSegments_bad _ t hK
    rw [removeRoute, he']
  | ok K =>
    rw [removeRoute, removeSegments_eq _ hK]
    cases hx : prune K t with
    | none => rfl
    | some x =>
      obtain ⟨t', b⟩ := x
      exact prune_absent K h.distinct h.live ((h.route_none K).mpr (habsent K hK)) hx

theorem filter_absent {T : Table R} {K : Pattern} (h : K ∉ T.map Prod.fst) :
    (T.filter fun e => e.1 ≠ K) = T := by
  refine List.filter_eq_self.mpr fun e he => ?_
  have : e.1 ≠ K := fun heq => h (heq ▸ List.mem_map_of_mem he)
  simpa using this

theorem holds_run {t : SegmentTreeNode R} {T : Table R} (h : Run t T) : Holds t T := by
  induction h with
  | start =>
    refine ⟨distinct_empty, ?_, fun K r => ?_, by simp⟩
    · exact liveRoot_of_children fun k c hc => by rw [child_empty] at hc; cases hc
    · cases K with
      | nil => simp [routeAt_nil, empty]
      | cons k K => simp [routeAt_cons]
  | @call t T c _ hcareful ih =>
    cases c with
    | add call => exact holds_add ih call hcareful
    | remove path =>
      by_cases hreg : ∃ K, patternOf (segments path) = .ok K ∧ K ∈ T.map Prod.fst
      · obtain ⟨K, hK, hin⟩ := hreg
        obtain ⟨t', b, hrem, hholds⟩ := holds_remove ih hK hin (hcareful K hK hin)
        rw [Call.run, Call.register, hrem, hK]
        exact hholds
      · have habsent : ∀ K, patternOf (segments path) = .ok K → K ∉ T.map Prod.fst :=
          fun K hK hin => hreg ⟨K, hK, hin⟩
        rw [remove_absent ih habsent]
        rw [Call.register]
        cases hK : patternOf (segments path) with
        | error e => exact ih
        | ok K =>
          simp only
          rw [filter_absent (habsent K hK)]
          exact ih

/-- Routes put at patterns are added by calls with paths of these patterns. -/
theorem addAll_of_addPatterns (L : List (Pattern × R)) :
    ∀ {n u : SegmentTreeNode R}, n.Distinct → addPatterns L n = some u →
      (∀ e ∈ L, ∃ path, patternOf (segments path) = .ok e.1) →
      ∃ calls, addAll calls n = .ok u ∧ ∀ K r, Added calls K r ↔ (K, r) ∈ L := by
  induction L with
  | nil =>
    intro n u _ h _
    obtain rfl := Option.some.inj h
    exact ⟨[], rfl, fun K r => by simp [Added]⟩
  | cons e L ih =>
    obtain ⟨K₀, r₀⟩ := e
    intro n u hd h hpaths
    rw [addPatterns] at h
    split at h
    · next hfree =>
      obtain ⟨path, hpath⟩ := hpaths (K₀, r₀) List.mem_cons_self
      obtain ⟨calls, hcalls, hadded⟩ := ih (distinct_put .back _ K₀ hd) h
        (fun e he => hpaths e (List.mem_cons_of_mem _ he))
      refine ⟨⟨.back, path, r₀⟩ :: calls, ?_, fun K r => ?_⟩
      · rw [addAll, addRoute, addSegments_ok .back r₀ _ hpath hfree]
        exact hcalls
      · rw [List.mem_cons, ← hadded]
        unfold Added
        simp only [List.mem_cons, exists_eq_or_imp, hpath, Except.ok.injEq, Prod.mk.injEq]
        refine or_congr ⟨fun h => ⟨h.1.symm, h.2.symm⟩, fun h => ⟨h.1.symm, h.2.symm⟩⟩ Iff.rfl
    · cases h

/-- **A removal removes nothing else**, on every tree that careful calls have built: the lookups
after it are those of a tree to which the remaining patterns alone were added, and the removal
of a pattern that is not registered changes none. -/
theorem removeRoute_frame (t : SegmentTreeNode R) (T : Table R) (hrun : Run t T) (path : Bytes)
    (hcareful : (Call.remove path : Call R).Careful T) :
    (∀ K, patternOf (segments path) = .ok K → K ∈ T.map Prod.fst →
      ∃ t' b calls u, t.removeRoute path = .ok (t', b) ∧ addAll calls .empty = .ok u ∧
        (∀ K' r, Added calls K' r ↔ (K', r) ∈ T ∧ K' ≠ K) ∧
        ∀ p, t'.findRoute p = u.findRoute p) ∧
    ((∀ K, patternOf (segments path) = .ok K → K ∉ T.map Prod.fst) →
      ∀ p, ((Call.remove path : Call R).run t).findRoute p = t.findRoute p) := by
  have h := holds_run hrun
  constructor
  · intro K hK hin
    obtain ⟨t', b, hrem, h'⟩ := holds_remove h hK hin (hcareful K hK hin)
    obtain ⟨L, u, hL, hmem, hfind, -⟩ := rebuild t' h'.distinct h'.live
    have hpaths : ∀ e ∈ L, ∃ path, patternOf (segments path) = .ok e.1 := by
      intro e he
      exact h'.paths e ((h'.routes e.1 e.2).mp ((hmem e.1 e.2).mp he))
    obtain ⟨calls, hcalls, hadded⟩ := addAll_of_addPatterns L distinct_empty hL hpaths
    refine ⟨t', b, calls, u, hrem, hcalls, fun K' r => ?_, fun p => ?_⟩
    · rw [hadded, hmem, h'.routes, List.mem_filter]
      simp
    · rw [findRoute_eq, findRoute_eq, hfind]
  · intro habsent p
    rw [remove_absent h habsent]

/-- The splat of `/a/*` reports to be empty, and the node of `/a` goes with `/a/b`. -/
theorem removeRoute_drops_sibling :
    let t : SegmentTreeNode Nat := runAdds [⟨.back, lit "a/b", 1⟩, ⟨.back, lit "a/*", 2⟩] .empty
    ∃ t' b, t.removeRoute (lit "a/*") = .ok (t', b) ∧ t'.findRoute (lit "a/b") = none ∧
      (runAdds [⟨.back, lit "a/b", 1⟩] .empty : SegmentTreeNode Nat).findRoute (lit "a/b") =
        some ⟨1, [], []⟩ :=
  ⟨_, _, rfl, by decide, by decide⟩

/-- The routes `/a` and `/b`. -/
def addA : Call Nat := .add ⟨.back, lit "a", 1⟩

def addB : Call Nat := .add ⟨.back, lit "b", 2⟩

theorem removeRoute_frame_two :
    ∃ t' b calls u, (addB.run (addA.run .empty)).removeRoute (lit "a") = .ok (t', b) ∧
      addAll calls .empty = .ok u ∧
      (∀ K' r, Added calls K' r ↔
        (K', r) ∈ addB.register (addA.register []) ∧ K' ≠ [.fixed (lit "a")]) ∧
      ∀ p, t'.findRoute p = u.findRoute p := by
  have hA : addA.Careful [] := fun e h => by
    rw [show patternOf (segments (lit "a")) = .ok [.fixed (lit "a")] from rfl] at h
    cases h
  have hB : addB.Careful (addA.register []) := fun e h => by
    rw [show patternOf (segments (lit "b")) = .ok [.fixed (lit "b")] from rfl] at h
    cases h
  have hremove : (Call.remove (lit "a") : Call Nat).Careful (addB.register (addA.register [])) := by
    intro K hK _ A B hAB
    rw [show patternOf (segments (lit "a")) = .ok [.fixed (lit "a")] from rfl] at hK
    obtain rfl := Except.ok.inj hK
    have hin : Segment.splat ∈ [Segment.fixed (lit "a")] := by rw [hAB]; simp
    simp at hin
  exact (removeRoute_frame _ _ ((Run.start.call addA hA).call addB hB) (lit "a") hremove).1
    [.fixed (lit "a")] rfl (by decide)

end Runs

end Pistache.Rest
