import Pistache.Rest.Lookup

/-!
# What adding a route does to lookups

A call of `addRoute` reaches the first segment of its pattern that has no node yet, hangs a new
child there and the rest of the pattern below it.  A lookup that runs out of path takes the first
optional of a node, so a new optional can come before a route that was found until then.

Principal results: `ending_put_hung` — how a new optional changes the endings of the nodes above
it; `find_put_none` — when nodes without a route change no lookup; `addRoute_keeps` — exactly
which paths an addition hides, and when a call that throws has left every lookup as it was.
-/

set_option autoImplicit false

namespace Pistache.Rest

open Backtrack SegmentTreeNode

namespace SegmentTreeNode

variable {R : Type} (order : IterationOrder R)

/-! ## Endings -/

theorem ending_of_nil {n : SegmentTreeNode R} (h : n.optional = []) :
    n.ending = n.route.map fun r => ([], r) := by
  cases n
  simp only at h
  subst h
  rfl

theorem ending_of_cons {n c : SegmentTreeNode R} {name : Bytes} {rest : Children R}
    (h : n.optional = ⟨name, c⟩ :: rest) :
    n.ending = c.ending.map fun e => (.optional name :: e.1, e.2) := by
  cases n
  simp only at h
  subst h
  rfl

theorem ending_congr {n m : SegmentTreeNode R} (ho : n.optional = m.optional)
    (hr : n.route = m.route) : n.ending = m.ending := by
  match h : m.optional with
  | [] => rw [ending_of_nil h, ending_of_nil (ho.trans h), hr]
  | ⟨_, _⟩ :: _ => rw [ending_of_cons h, ending_of_cons (ho.trans h)]

theorem ending_cons_eq_none {n c : SegmentTreeNode R} {name : Bytes} {rest : Children R}
    (h : n.optional = ⟨name, c⟩ :: rest) : n.ending = none ↔ c.ending = none := by
  rw [ending_of_cons h, Option.map_eq_none_iff]

@[simp] theorem ending_empty : (empty : SegmentTreeNode R).ending = none := rfl

theorem route_putChild (n c : SegmentTreeNode R) (k : Segment) :
    (n.putChild order k c).route = n.route := by
  by_cases hk : k = .splat
  · rw [hk]
    rfl
  · rw [putChild_of_ne_splat order hk, route_setCollection]

/-- Only an optional changes the optionals. -/
theorem optional_putChild {k : Segment} (hk : ∀ name, k ≠ .optional name)
    (n c : SegmentTreeNode R) : (n.putChild order k c).optional = n.optional := by
  cases k with
  | optional name => exact absurd rfl (hk name)
  | fixed text => rfl
  | param name => rfl
  | splat => rfl

theorem ending_putChild {k : Segment} (hk : ∀ name, k ≠ .optional name)
    (n c : SegmentTreeNode R) : (n.putChild order k c).ending = n.ending :=
  ending_congr (optional_putChild order hk n c) (route_putChild order n c k)

theorem optional_putChild_optional (name : Bytes) (n c : SegmentTreeNode R) :
    (n.putChild order (.optional name) c).optional =
      (opened order name n.optional).kreplace name c := rfl

theorem child_optional (name : Bytes) (n : SegmentTreeNode R) :
    n.child (.optional name) = n.optional.dlookup name := rfl

/-- An existing optional keeps its place. -/
theorem optional_putChild_split {name : Bytes} {n c : SegmentTreeNode R}
    (hc : n.child (.optional name) = some c) : ∃ l₁ l₂ : Children R,
      n.optional = l₁ ++ ⟨name, c⟩ :: l₂ ∧ name ∉ l₁.keys ∧
        ∀ c', (n.putChild order (.optional name) c').optional = l₁ ++ ⟨name, c'⟩ :: l₂ := by
  rw [child_optional] at hc
  obtain ⟨l₁, l₂, hl, hnot, hrep, -⟩ := Assoc.dlookup_split hc
  refine ⟨l₁, l₂, hl, hnot, fun c' => ?_⟩
  rw [optional_putChild_optional]
  unfold opened
  rw [if_neg (by rw [hc]; simp), hrep]

/-- A branch of new nodes ends in its route if it consists of optionals. -/
theorem ending_put_empty (handler : Option R) (Q : Pattern) :
    (put order handler Q empty).ending ≠ none ↔ handler ≠ none ∧ AllOptional Q := by
  induction Q with
  | nil =>
    cases handler with
    | none => simp [put]
    | some r => simp [put, AllOptional, empty, ending]
  | cons k Q ih =>
    rw [put, child_empty, Option.getD_none]
    by_cases hk : ∃ name, k = .optional name
    · obtain ⟨name, rfl⟩ := hk
      have hopen : opened order name ([] : Children R) = [⟨name, empty⟩] := by
        unfold opened
        rw [List.dlookup_nil, if_pos rfl]
        exact List.perm_singleton.mp (order.perm name [])
      have hopt : ((empty : SegmentTreeNode R).putChild order (.optional name)
          (put order handler Q empty)).optional = [⟨name, put order handler Q empty⟩] := by
        rw [optional_putChild_optional]
        change (opened order name ([] : Children R)).kreplace _ _ = _
        rw [hopen]
        exact Assoc.kreplace_cons_eq name _ _ []
      rw [ne_eq, ending_cons_eq_none hopt, ← ne_eq, ih]
      simp [AllOptional]
    · have hne : ∀ name, k ≠ .optional name := fun name h => hk ⟨name, h⟩
      rw [ending_putChild order hne, ending_empty]
      simp only [AllOptional, List.mem_cons, forall_eq_or_imp, ne_eq, not_true_eq_false, false_iff,
        not_and]
      exact fun _ h => absurd h hk

/-! ## Where a pattern leaves the tree -/

/-- A pattern has a node, or there is a first segment without one. -/
theorem nodeAt_or_hangs (K : Pattern) : ∀ n : SegmentTreeNode R,
    (∃ m, nodeAt K n = some m) ∨
      ∃ D k E d, K = D ++ k :: E ∧ nodeAt D n = some d ∧ d.child k = none := by
  induction K with
  | nil => exact fun n => .inl ⟨n, rfl⟩
  | cons k K ih =>
    intro n
    cases hc : n.child k with
    | none => exact .inr ⟨[], k, K, n, rfl, rfl, hc⟩
    | some c =>
      rcases ih c with ⟨m, hm⟩ | ⟨D, k', E, d, rfl, hd, hnone⟩
      · exact .inl ⟨m, by rw [nodeAt_cons, hc]; exact hm⟩
      · exact .inr ⟨k :: D, k', E, d, rfl, by rw [nodeAt_cons, hc]; exact hd, hnone⟩

/-- Behind the first segment without a node there is none either. -/
theorem nodeAt_hung {D E : Pattern} {k : Segment} {n d : SegmentTreeNode R}
    (hd : nodeAt D n = some d) (hnone : d.child k = none) : nodeAt (D ++ k :: E) n = none := by
  rw [nodeAt_append, hd, Option.bind_some, nodeAt_cons, hnone]
  rfl

/-- Of two first parts of a pattern one is a first part of the other. -/
theorem nodeAt_of_hung {A D E : Pattern} {k : Segment} {n d m : SegmentTreeNode R}
    (hd : nodeAt D n = some d) (hnone : d.child k = none) (hA : A <+: D ++ k :: E)
    (hm : nodeAt A n = some m) : ∃ C, D = A ++ C ∧ nodeAt C m = some d := by
  rcases List.prefix_or_prefix_of_prefix hA (List.prefix_append D (k :: E)) with ⟨C, rfl⟩ | ⟨C, rfl⟩
  · refine ⟨C, rfl, ?_⟩
    rw [nodeAt_append, hm, Option.bind_some] at hd
    exact hd
  · cases C with
    | nil =>
      rw [List.append_nil] at hm ⊢
      rw [hd] at hm
      obtain rfl := Option.some.inj hm
      exact ⟨[], (List.append_nil D).symm, rfl⟩
    | cons k' C =>
      obtain ⟨F, hF⟩ := hA
      rw [List.append_assoc, List.append_cancel_left_eq, List.cons_append] at hF
      obtain ⟨rfl, -⟩ := List.cons.inj hF
      rw [nodeAt_hung hd hnone] at hm
      cases hm

/-! ## A new optional -/

/-- The optional that is first once a new one is there leads to no route; the new one does
when nothing but optionals hangs below it. -/
def DeadFirst (d : SegmentTreeNode R) (name : Bytes) (E : Pattern) : Prop :=
  ∀ f c rest, order.insert name d.optional = ⟨f, c⟩ :: rest →
    if f = name then ¬ AllOptional E else c.ending = none

/-- At the node where the new optional hangs. -/
theorem ending_put_hung_here (handler : R) {name : Bytes} {E : Pattern} {d : SegmentTreeNode R}
    (hnone : d.child (.optional name) = none) :
    (put order (some handler) (.optional name :: E) d).ending = none ↔
      DeadFirst order d name E := by
  have hlook : d.optional.dlookup name = none := hnone
  have hopen : opened order name d.optional = order.insert name d.optional := if_pos hlook
  have hopt : (put order (some handler) (.optional name :: E) d).optional =
      (order.insert name d.optional).kreplace name (put order (some handler) E empty) := by
    rw [put, optional_putChild_optional, hnone, hopen]
    rfl
  cases hins : order.insert name d.optional with
  | nil =>
    have hp := order.perm name d.optional
    rw [hins] at hp
    exact absurd hp.symm.eq_nil (by simp)
  | cons entry rest =>
    obtain ⟨f, c⟩ := entry
    have hdead : DeadFirst order d name E ↔ if f = name then ¬ AllOptional E else c.ending = none := by
      constructor
      · exact fun h => h f c rest hins
      · intro h f' c' rest' heq
        rw [hins] at heq
        obtain ⟨h₁, -⟩ := List.cons.inj heq
        cases h₁
        exact h
    rw [hdead]
    rw [hins] at hopt
    by_cases hf : f = name
    · subst hf
      rw [Assoc.kreplace_cons_eq] at hopt
      rw [ending_cons_eq_none hopt, if_pos rfl, ← not_iff_not, ← ne_eq, ending_put_empty, not_not]
      simp
    · rw [Assoc.kreplace_cons_ne (fun h => hf h.symm)] at hopt
      rw [ending_cons_eq_none hopt, if_neg hf]

/-- **A new optional and the endings above it**: a node from which first optionals lead to the
node where it hangs gets the new ending, any other node keeps its own. -/
theorem ending_put_hung (handler : R) {name : Bytes} {E : Pattern} {d : SegmentTreeNode R}
    (hnone : d.child (.optional name) = none) (C : Pattern) :
    ∀ {n : SegmentTreeNode R}, n.Distinct → nodeAt C n = some d →
      (FirstOptionals n C d →
        ((put order (some handler) (C ++ .optional name :: E) n).ending = none ↔
          DeadFirst order d name E)) ∧
      (¬ FirstOptionals n C d →
        (put order (some handler) (C ++ .optional name :: E) n).ending = n.ending) := by
  induction C with
  | nil =>
    intro n _ hn
    obtain rfl := Option.some.inj hn
    exact ⟨fun _ => ending_put_hung_here order handler hnone, fun h => absurd (.here n) h⟩
  | cons k C ih =>
    intro n hd hn
    obtain ⟨c, hc, hcn⟩ := Option.bind_eq_some_iff.mp hn
    have hput : put order (some handler) (k :: C ++ .optional name :: E) n =
        n.putChild order k (put order (some handler) (C ++ .optional name :: E) c) := by
      rw [List.cons_append, put, hc]
      rfl
    rw [hput]
    by_cases hk : ∃ name', k = .optional name'
    · obtain ⟨name', rfl⟩ := hk
      obtain ⟨l₁, l₂, hl, hnot, hrep⟩ := optional_putChild_split order hc
      have hrep := hrep (put order (some handler) (C ++ .optional name :: E) c)
      obtain ⟨ih₁, ih₂⟩ := ih (hd.child hc) hcn
      cases l₁ with
      | nil =>
        have hiff : FirstOptionals n (.optional name' :: C) d ↔ FirstOptionals c C d := by
          refine ⟨fun h => ?_, .next hl⟩
          cases h with
          | next hopt h =>
            rw [hl] at hopt
            obtain ⟨heq, -⟩ := List.cons.inj hopt
            cases heq
            exact h
        rw [hiff]
        refine ⟨fun h => ?_, fun h => ?_⟩
        · rw [ending_cons_eq_none hrep]
          exact ih₁ h
        · rw [ending_of_cons hrep, ending_of_cons hl, ih₂ h]
      | cons entry l₁ =>
        obtain ⟨f, cf⟩ := entry
        have hother : ¬ FirstOptionals n (.optional name' :: C) d := by
          intro h
          cases h with
          | next hopt h =>
            rw [hl] at hopt
            obtain ⟨heq, -⟩ := List.cons.inj hopt
            cases heq
            exact hnot (by simp)
        refine ⟨fun h => absurd h hother, fun _ => ?_⟩
        rw [ending_of_cons hrep, ending_of_cons hl]
    · have hne : ∀ name', k ≠ .optional name' := fun name' h => hk ⟨name', h⟩
      refine ⟨fun h => ?_, fun _ => ending_putChild order hne n _⟩
      cases h with
      | next => exact absurd rfl (hne _)

/-- A new child of another kind changes no ending above it. -/
theorem ending_put_hung_other (handler : Option R) {k : Segment} (hk : ∀ name, k ≠ .optional name)
    {E : Pattern} {d : SegmentTreeNode R} (C : Pattern) :
    ∀ {n : SegmentTreeNode R}, nodeAt C n = some d →
      (put order handler (C ++ k :: E) n).ending = n.ending := by
  induction C with
  | nil => exact fun _ => ending_putChild order hk _ _
  | cons k' C ih =>
    intro n hn
    obtain ⟨c, hc, hcn⟩ := Option.bind_eq_some_iff.mp hn
    rw [List.cons_append, put, hc, Option.getD_some]
    by_cases hk' : ∃ name, k' = .optional name
    · obtain ⟨name, rfl⟩ := hk'
      obtain ⟨l₁, l₂, hl, -, hrep⟩ := optional_putChild_split order hc
      have hrep := hrep (put order handler (C ++ k :: E) c)
      cases l₁ with
      | nil => rw [ending_of_cons hrep, ending_of_cons hl, ih hcn]
      | cons entry l₁ =>
        obtain ⟨f, cf⟩ := entry
        rw [ending_of_cons hrep, ending_of_cons hl]
    · exact ending_putChild order (fun name h => hk' ⟨name, h⟩) n _

/-- A route set at an existing node takes no ending away. -/
theorem ending_put_existing (handler : R) (K : Pattern) :
    ∀ {n m : SegmentTreeNode R}, nodeAt K n = some m → n.ending ≠ none →
      (put order (some handler) K n).ending ≠ none := by
  induction K with
  | nil =>
    intro n m _ hend
    match h : n.optional with
    | [] =>
      have hopt : (put order (some handler) [] n).optional = [] := h
      rw [ending_of_nil hopt]
      simp [put]
    | ⟨_, _⟩ :: _ =>
      have hopt : (put order (some handler) [] n).optional = _ :: _ := h
      rw [ending_of_cons h] at hend
      rw [ending_of_cons hopt]
      exact hend
  | cons k K ih =>
    intro n m hm hend
    obtain ⟨c, hc, hcm⟩ := Option.bind_eq_some_iff.mp hm
    rw [put, hc, Option.getD_some]
    by_cases hk : ∃ name, k = .optional name
    · obtain ⟨name, rfl⟩ := hk
      obtain ⟨l₁, l₂, hl, -, hrep⟩ := optional_putChild_split order hc
      have hrep := hrep (put order (some handler) K c)
      cases l₁ with
      | nil =>
        rw [ne_eq, ending_cons_eq_none hl] at hend
        rw [ne_eq, ending_cons_eq_none hrep]
        exact ih hcm hend
      | cons entry l₁ =>
        obtain ⟨f, cf⟩ := entry
        rw [ending_of_cons hl] at hend
        rw [ending_of_cons hrep]
        exact hend
    · rw [ending_putChild order fun name h => hk ⟨name, h⟩]
      exact hend

/-! ## New nodes without a route -/

/-- The map keeps the order of the entries it has when a new one comes in. -/
def KeepsOrder (key : Bytes) (children : Children R) : Prop :=
  ∃ l₁ l₂, children = l₁ ++ l₂ ∧ order.insert key children = l₁ ++ ⟨key, empty⟩ :: l₂

/-- The new child comes into its map without disturbing the others, and as an optional not
before an ending the node had. -/
def Undisturbed (d : SegmentTreeNode R) : Segment → Prop
  | .param name => KeepsOrder order name d.param
  | .optional name => KeepsOrder order name d.optional ∧
      (d.ending ≠ none → ∀ c rest, order.insert name d.optional ≠ ⟨name, c⟩ :: rest)
  | _ => True

/-- What one child contributes to a lookup. -/
def findVia (lower : List Bytes) (k : Segment) (c : SegmentTreeNode R) : Option (Pattern × R) :=
  (find lower c).map fun e => (k :: e.1, e.2)

theorem find_cons (segment : Bytes) (lower : List Bytes) (n : SegmentTreeNode R) :
    find (segment :: lower) n =
      ((((n.fixed.dlookup segment).bind (findVia lower (.fixed segment))).or
        (n.param.findSome? fun entry => findVia lower (.param entry.1) entry.2)).or
        (n.optional.findSome? fun entry => findVia lower (.optional entry.1) entry.2)).or
        (n.splat.bind (findVia lower .splat)) := by
  have hone : ∀ (k : Segment) (o : Option (SegmentTreeNode R)),
      (o.toList.map fun c => (k, c)).findSome?
        (fun h => (find lower h.2).map fun e => (h.1 :: e.1, e.2)) =
          o.bind (findVia lower k) := by
    intro k o
    cases o <;> simp [findVia]
  rw [find, heads, List.findSome?_append, List.findSome?_append, List.findSome?_append, hone, hone,
    List.findSome?_map, List.findSome?_map]
  rfl

/-- A child in the place of another that finds the same. -/
theorem find_putChild {n c c' : SegmentTreeNode R} (hd : n.DistinctHere) {k : Segment}
    (hc : n.child k = some c) (heq : ∀ p, find p c' = find p c) (p : List Bytes) :
    find p (n.putChild order k c') = find p n := by
  have hvia : ∀ lower k, findVia lower k c' = findVia lower k c := by
    intro lower k
    unfold findVia
    rw [heq]
  cases p with
  | nil =>
    by_cases hk : ∃ name, k = .optional name
    · obtain ⟨name, rfl⟩ := hk
      obtain ⟨l₁, l₂, hl, -, hrep⟩ := optional_putChild_split order hc
      have hrep := hrep c'
      change ending _ = ending _
      cases l₁ with
      | nil =>
        have hend : c'.ending = c.ending := heq []
        rw [ending_of_cons hrep, ending_of_cons hl, hend]
      | cons entry l₁ =>
        obtain ⟨f, cf⟩ := entry
        rw [ending_of_cons hrep, ending_of_cons hl]
    · exact ending_putChild order (fun name h => hk ⟨name, h⟩) n c'
  | cons segment lower =>
    rw [find_cons, find_cons]
    cases k with
    | fixed text =>
      have hfixed : ((n.putChild order (.fixed text) c').fixed.dlookup segment).bind
          (findVia lower (.fixed segment)) =
            (n.fixed.dlookup segment).bind (findVia lower (.fixed segment)) := by
        by_cases ht : segment = text
        · subst ht
          have h₁ := child_putChild_self order n c' (.fixed segment)
          have h₂ : n.fixed.dlookup segment = some c := hc
          rw [show (n.putChild order (.fixed segment) c').fixed.dlookup segment = some c' from h₁,
            h₂, Option.bind_some, Option.bind_some, hvia]
        · have hne : Segment.fixed segment ≠ .fixed text := fun h => ht (Segment.fixed.inj h)
          have h := child_putChild_ne order hd c' hne
          rw [show (n.putChild order (.fixed text) c').fixed.dlookup segment =
            n.fixed.dlookup segment from h]
      rw [hfixed]
      rfl
    | param name =>
      have hlook : n.param.dlookup name = some c := hc
      obtain ⟨l₁, l₂, hl, -, hrep, -⟩ := Assoc.dlookup_split hlook
      have hparam : (n.putChild order (.param name) c').param = l₁ ++ ⟨name, c'⟩ :: l₂ := by
        change (opened order name n.param).kreplace name c' = _
        unfold opened
        rw [if_neg (by rw [hlook]; simp), hrep]
      rw [hparam, hl, List.findSome?_append, List.findSome?_append, List.findSome?_cons,
        List.findSome?_cons, hvia]
      rfl
    | optional name =>
      obtain ⟨l₁, l₂, hl, -, hrep⟩ := optional_putChild_split order hc
      rw [hrep c', hl, List.findSome?_append, List.findSome?_append, List.findSome?_cons,
        List.findSome?_cons, hvia]
      rfl
    | splat =>
      have hsplat : n.splat = some c := hc
      rw [hsplat]
      change (Option.or _ ((some c').bind _)) = _
      rw [Option.bind_some, Option.bind_some, hvia]
      rfl

theorem opened_kreplace {key : Bytes} {children l₁ l₂ : Children R}
    (hnone : children.dlookup key = none) (hl : children = l₁ ++ l₂)
    (hins : order.insert key children = l₁ ++ ⟨key, empty⟩ :: l₂) (b : SegmentTreeNode R) :
    (opened order key children).kreplace key b = l₁ ++ ⟨key, b⟩ :: l₂ := by
  have hnot : key ∉ l₁.keys := by
    intro hin
    have h := List.dlookup_eq_none.mp hnone
    rw [hl, List.keys_append] at h
    exact h (List.mem_append_left _ hin)
  unfold opened
  rw [if_pos hnone, hins, Assoc.kreplace_middle hnot]

/-- A new child from which nothing is found. -/
theorem find_putChild_dead {n b : SegmentTreeNode R} (hd : n.DistinctHere) {k : Segment}
    (hnone : n.child k = none) (hdead : ∀ p, find p b = none) (hkeeps : Undisturbed order n k)
    (p : List Bytes) : find p (n.putChild order k b) = find p n := by
  have hvia : ∀ lower k, findVia lower k b = none := by
    intro lower k
    unfold findVia
    rw [hdead]
    rfl
  cases p with
  | nil =>
    by_cases hk : ∃ name, k = .optional name
    · obtain ⟨name, rfl⟩ := hk
      have hlook : n.optional.dlookup name = none := hnone
      obtain ⟨⟨l₁, l₂, hl, hins⟩, hfirst⟩ := hkeeps
      have hopt : (n.putChild order (.optional name) b).optional = l₁ ++ ⟨name, b⟩ :: l₂ :=
        opened_kreplace order hlook hl hins b
      change ending _ = ending _
      cases l₁ with
      | nil =>
        have hbend : b.ending = none := hdead []
        have hnend : n.ending = none := by
          by_contra h
          exact hfirst h empty l₂ hins
        rw [hnend, ending_cons_eq_none hopt]
        exact hbend
      | cons entry l₁ =>
        obtain ⟨f, cf⟩ := entry
        rw [ending_of_cons hopt, ending_of_cons hl]
    · exact ending_putChild order (fun name h => hk ⟨name, h⟩) n b
  | cons segment lower =>
    rw [find_cons, find_cons]
    cases k with
    | fixed text =>
      have hfixed : ((n.putChild order (.fixed text) b).fixed.dlookup segment).bind
          (findVia lower (.fixed segment)) =
            (n.fixed.dlookup segment).bind (findVia lower (.fixed segment)) := by
        by_cases ht : segment = text
        · subst ht
          have h₁ := child_putChild_self order n b (.fixed segment)
          have h₂ : n.fixed.dlookup segment = none := hnone
          rw [show (n.putChild order (.fixed segment) b).fixed.dlookup segment = some b from h₁,
            h₂, Option.bind_some, hvia]
          rfl
        · have hne : Segment.fixed segment ≠ .fixed text := fun h => ht (Segment.fixed.inj h)
          have h := child_putChild_ne order hd b hne
          rw [show (n.putChild order (.fixed text) b).fixed.dlookup segment =
            n.fixed.dlookup segment from h]
      rw [hfixed]
      rfl
    | param name =>
      obtain ⟨l₁, l₂, hl, hins⟩ := hkeeps
      have hparam : (n.putChild order (.param name) b).param = l₁ ++ ⟨name, b⟩ :: l₂ :=
        opened_kreplace order hnone hl hins b
      rw [hparam, hl, List.findSome?_append, List.findSome?_append, List.findSome?_cons, hvia]
      rfl
    | optional name =>
      obtain ⟨⟨l₁, l₂, hl, hins⟩, -⟩ := hkeeps
      have hopt : (n.putChild order (.optional name) b).optional = l₁ ++ ⟨name, b⟩ :: l₂ :=
        opened_kreplace order hnone hl hins b
      rw [hopt, hl, List.findSome?_append, List.findSome?_append, List.findSome?_cons, hvia]
      rfl
    | splat =>
      have hsplat : n.splat = none := hnone
      rw [hsplat]
      change (Option.or _ ((some b).bind _)) = _
      rw [Option.bind_some, hvia]
      rfl

/-- From nodes without a route nothing is found. -/
theorem find_put_none_empty (Q : Pattern) (p : List Bytes) :
    find p (put order none Q empty) = none := by
  by_contra h
  obtain ⟨A, m, -, hm, hend⟩ :=
    (find_ne_none (distinct_put order none Q distinct_empty)).mp h
  by_cases hA : A <+: Q
  · obtain ⟨Q', rfl⟩ := hA
    rw [nodeAt_put_append] at hm
    obtain rfl := Option.some.inj hm
    have hempty : (nodeAt A (empty : SegmentTreeNode R)).getD empty = empty := by
      cases A with
      | nil => rfl
      | cons k A => rw [nodeAt_empty (by simp)]; rfl
    rw [hempty] at hend
    exact ((ending_put_empty order none Q').mp hend).1 rfl
  · rw [nodeAt_put_other order none hA distinct_empty] at hm
    cases A with
    | nil => exact hA List.nil_prefix
    | cons k A =>
      rw [nodeAt_empty (by simp)] at hm
      cases hm

/-- **Nodes without a route change no lookup** when the first new one disturbs nothing. -/
theorem find_put_none (K : Pattern) : ∀ {n : SegmentTreeNode R}, n.Distinct →
    (∀ D k E d, K = D ++ k :: E → nodeAt D n = some d → d.child k = none →
      Undisturbed order d k) →
    ∀ p, find p (put order none K n) = find p n := by
  induction K with
  | nil => exact fun _ _ _ => rfl
  | cons k K ih =>
    intro n hd hcond p
    rw [put]
    cases hc : n.child k with
    | some c =>
      refine find_putChild order hd.here hc (ih (hd.child hc) fun D k' E d hK hD hnone => ?_) p
      exact hcond (k :: D) k' E d (by rw [hK]; rfl) (by rw [nodeAt_cons, hc]; exact hD) hnone
    | none =>
      exact find_putChild_dead order hd.here hc (find_put_none_empty order K)
        (hcond [] k K n rfl rfl hc) p

end SegmentTreeNode

/-! ## Additions one after the other -/

section Additions

variable {R : Type}

/-- The tree after the calls, of which any may have thrown. -/
def runAdds : List (AddCall R) → SegmentTreeNode R → SegmentTreeNode R
  | [], n => n
  | call :: calls, n => runAdds calls (n.addRoute call.order call.path call.handler).1

theorem distinct_addRoute (order : IterationOrder R) {n : SegmentTreeNode R} (hd : n.Distinct)
    (path : Bytes) (handler : R) : (n.addRoute order path handler).1.Distinct := by
  rcases addRoute_cases order n hd path handler with
    ⟨K, _, _, heq⟩ | ⟨_, _, _, _, heq⟩ | ⟨_, _, heq⟩
  · rw [heq]
    exact distinct_put order _ K hd
  · rw [heq]
    exact hd
  · rw [heq]
    exact distinct_put order _ _ hd

theorem distinct_runAdds (calls : List (AddCall R)) :
    ∀ {n : SegmentTreeNode R}, n.Distinct → (runAdds calls n).Distinct := by
  induction calls with
  | nil => exact fun h => h
  | cons call calls ih => exact fun h => ih (distinct_addRoute call.order h call.path call.handler)

/-- The pattern hangs a new optional at a node, a dead one comes first there, every way of the
path that had an ending went through that node, and the pattern itself does not match the path
with the new optional. -/
def Hides (order : IterationOrder R) (t : SegmentTreeNode R) (K : Pattern) (p : List Bytes) :
    Prop :=
  ∃ D name E d, K = D ++ .optional name :: E ∧ nodeAt D t = some d ∧
    d.child (.optional name) = none ∧ DeadFirst order d name E ∧
    (∀ A n, List.Forall₂ Segment.Takes A p → nodeAt A t = some n → n.ending ≠ none →
      ∃ C, D = A ++ C ∧ FirstOptionals n C d) ∧
    ¬ (Matches K p ∧ D.length < p.length)

/-- A way of the path below the new optional is the pattern itself. -/
theorem matches_of_prefix {A Q : Pattern} {p : List Bytes} (hA : List.Forall₂ Segment.Takes A p)
    (hQ : AllOptional Q) : Matches (A ++ Q) p :=
  matches_iff.mpr ⟨A, Q, rfl, hA, hQ⟩

/-- **A path that was found and is found no more**: exactly when the pattern put hides it. -/
theorem find_put_some (order : IterationOrder R) (handler : R) {t : SegmentTreeNode R}
    (hd : t.Distinct) (K : Pattern) {p : List Bytes} (hbefore : find p t ≠ none) :
    find p (put order (some handler) K t) ≠ none ↔ ¬ Hides order t K p := by
  have hd' := distinct_put order (some handler) K hd
  constructor
  · rintro hafter ⟨D, name, E, d, rfl, hD, hnone, hdead, hways, hnomatch⟩
    obtain ⟨A, m, hA, hm, hend⟩ := (find_ne_none hd').mp hafter
    by_cases hpre : A <+: D ++ .optional name :: E
    · rcases List.prefix_or_prefix_of_prefix hpre
        (List.prefix_append D (.optional name :: E)) with ⟨C, rfl⟩ | hDA
      · -- a way that ends above the new optional
        obtain ⟨n, hn, hC⟩ : ∃ n, nodeAt A t = some n ∧ nodeAt C n = some d := by
          rw [nodeAt_append] at hD
          exact Option.bind_eq_some_iff.mp hD
        rw [List.append_assoc, nodeAt_put_append, hn, Option.getD_some] at hm
        obtain rfl := Option.some.inj hm
        obtain ⟨h₁, h₂⟩ := ending_put_hung order handler (E := E) hnone C
          (fun K m hK => hd (A ++ K) m (by rw [nodeAt_append, hn]; exact hK)) hC
        by_cases hfirst : FirstOptionals n C d
        · exact hend ((h₁ hfirst).mpr hdead)
        · rw [h₂ hfirst] at hend
          obtain ⟨C', hC', hfirst'⟩ := hways A n hA hn hend
          obtain rfl := List.append_cancel_left hC'
          exact hfirst hfirst'
      · -- a way that takes the new optional
        obtain ⟨C, rfl⟩ := hDA
        obtain ⟨Q, hQ⟩ := hpre
        cases C with
        | nil =>
          rw [List.append_nil] at hA hm
          obtain ⟨h₁, h₂⟩ := ending_put_hung order handler (E := E) hnone []
            (fun K m hK => hd (D ++ K) m (by rw [nodeAt_append, hD]; exact hK)) rfl
          rw [nodeAt_put_append, hD, Option.getD_some] at hm
          obtain rfl := Option.some.inj hm
          exact hend ((h₁ (.here d)).mpr hdead)
        | cons k C =>
          rw [List.append_assoc, List.append_cancel_left_eq, List.cons_append] at hQ
          obtain ⟨rfl, rfl⟩ := List.cons.inj hQ
          have hK : D ++ .optional name :: (C ++ Q) = (D ++ .optional name :: C) ++ Q := by simp
          rw [hK, nodeAt_put_append, nodeAt_hung hD hnone] at hm
          obtain rfl := Option.some.inj hm
          have hopt := ((ending_put_empty order (some handler) Q).mp hend).2
          refine hnomatch ⟨hK ▸ matches_of_prefix hA hopt, ?_⟩
          have hlen := hA.length_eq
          rw [List.length_append, List.length_cons] at hlen
          omega
    · rw [nodeAt_put_other order (some handler) hpre hd] at hm
      obtain ⟨C, rfl, -⟩ := hways A m hA hm hend
      exact hpre (by rw [List.append_assoc]; exact List.prefix_append A _)
  · intro hnot hafter
    obtain ⟨A, n, hA, hn, hend⟩ := (find_ne_none hd).mp hbefore
    have hdn : n.Distinct := fun K m hK => hd (A ++ K) m (by rw [nodeAt_append, hn]; exact hK)
    have hlost : ∀ A m, List.Forall₂ Segment.Takes A p →
        nodeAt A (put order (some handler) K t) = some m → m.ending = none := by
      intro A m hA hm
      by_contra h
      exact (find_ne_none hd').mpr ⟨A, m, hA, hm, h⟩ hafter
    have hpre : ∀ A n, List.Forall₂ Segment.Takes A p → nodeAt A t = some n → n.ending ≠ none →
        ∃ Q, K = A ++ Q ∧ (put order (some handler) Q n).ending = none := by
      intro A n hA hn hend
      by_cases h : A <+: K
      · obtain ⟨Q, rfl⟩ := h
        refine ⟨Q, rfl, hlost A _ hA ?_⟩
        rw [nodeAt_put_append, hn, Option.getD_some]
      · exact absurd (hlost A n hA (by rw [nodeAt_put_other order _ h hd]; exact hn)) hend
    obtain ⟨Q, hKQ, hnone⟩ := hpre A n hA hn hend
    rcases nodeAt_or_hangs Q n with ⟨m, hm⟩ | ⟨C, k, E, d, rfl, hC, hk⟩
    · exact ending_put_existing order handler Q hm hend hnone
    · by_cases hopt : ∃ name, k = .optional name
      · obtain ⟨name, rfl⟩ := hopt
        have hD : nodeAt (A ++ C) t = some d := by rw [nodeAt_append, hn]; exact hC
        have hK : K = (A ++ C) ++ .optional name :: E := by rw [hKQ, List.append_assoc]
        obtain ⟨h₁, h₂⟩ := ending_put_hung order handler (E := E) hk C hdn hC
        have hfirst : FirstOptionals n C d := by
          by_contra h
          exact hend ((h₂ h).symm.trans hnone)
        refine hnot ⟨A ++ C, name, E, d, hK, hD, hk, (h₁ hfirst).mp hnone, ?_, ?_⟩
        · intro A' n' hA' hn' hend'
          obtain ⟨Q', hKQ', hnone'⟩ := hpre A' n' hA' hn' hend'
          obtain ⟨C', hC', hd''⟩ := nodeAt_of_hung hD hk
            (hK ▸ hKQ' ▸ List.prefix_append A' Q') hn'
          refine ⟨C', hC', ?_⟩
          have hQ' : Q' = C' ++ .optional name :: E := by
            have h := hKQ'.symm.trans hK
            rw [hC', List.append_assoc] at h
            exact List.append_cancel_left h
          rw [hQ'] at hnone'
          have hdn' : n'.Distinct := fun K m hK =>
            hd (A' ++ K) m (by rw [nodeAt_append, hn']; exact hK)
          by_contra hnf
          have h := (ending_put_hung order handler (E := E) hk C' hdn' hd'').2 hnf
          exact hend' (h.symm.trans hnone')
        · rintro ⟨hmatch, hlt⟩
          -- the pattern itself finds the path
          obtain ⟨A', B, hAB, hA', hB⟩ := matches_iff.mp hmatch
          have hlen := hA'.length_eq
          have hDA : A ++ C <+: A' := by
            have h₁ : A ++ C <+: K := hK ▸ List.prefix_append _ _
            have h₂ : A' <+: K := hAB ▸ List.prefix_append _ _
            exact List.prefix_of_prefix_length_le h₁ h₂ (by omega)
          obtain ⟨F, rfl⟩ := hDA
          have hF : F ≠ [] := by
            rintro rfl
            rw [List.append_nil] at hlen
            omega
          obtain ⟨k', F, rfl⟩ := List.exists_cons_of_ne_nil hF
          have hk' : k' = .optional name := by
            have h := hAB.symm.trans hK
            rw [List.append_assoc, List.append_cancel_left_eq, List.cons_append] at h
            exact (List.cons.inj h).1
          have hm : nodeAt ((A ++ C) ++ k' :: F) (put order (some handler) K t) =
              some (put order (some handler) B empty) := by
            rw [hAB, nodeAt_put_append, hk', nodeAt_hung hD hk]
            rfl
          exact (ending_put_empty order (some handler) B).mpr ⟨by simp, hB⟩ (hlost _ _ hA' hm)
      · have h := ending_put_hung_other order (some handler) (fun name h => hopt ⟨name, h⟩) (E := E)
          C hC
        exact hend (h.symm.trans hnone)

/-- **Which lookups a call of `addRoute` changes**, on the tree that any calls have left.  When
it succeeds, the paths that were found and are found no more are those its pattern hides.  When
it throws, every lookup gives what it gave: always for a pattern that is there already, and for
a bad one if the first node it created disturbs nothing. -/
theorem addRoute_keeps (calls : List (AddCall R)) (call : AddCall R) (t t' : SegmentTreeNode R)
    (outcome : Except String Unit) (ht : t = runAdds calls .empty)
    (hcall : t.addRoute call.order call.path call.handler = (t', outcome)) :
    (∀ K, patternOf (segments call.path) = .ok K → outcome = .ok () →
      ∀ path, t.findRoute path ≠ none →
        (t'.findRoute path ≠ none ↔ ¬ Hides call.order t K (segments path))) ∧
    (∀ K e, patternOf (segments call.path) = .ok K → outcome = .error e →
      ∀ path, t'.findRoute path = t.findRoute path) ∧
    (∀ e, patternOf (segments call.path) = .error e →
      (∀ D k E d, goodPart (segments call.path) = D ++ k :: E → nodeAt D t = some d →
        d.child k = none → Undisturbed call.order d k) →
      ∀ path, t'.findRoute path = t.findRoute path) := by
  have hd : t.Distinct := ht ▸ distinct_runAdds calls distinct_empty
  have hfound : ∀ (n : SegmentTreeNode R) path,
      n.findRoute path ≠ none ↔ find (segments path) n ≠ none := by
    intro n path
    rw [findRoute_eq, ne_eq, ne_eq, Option.map_eq_none_iff]
  rcases addRoute_cases call.order t hd call.path call.handler with
    ⟨K, hK, hfree, heq⟩ | ⟨K, r, hK, hr, heq⟩ | ⟨e, he, heq⟩
  · obtain ⟨rfl, rfl⟩ := Prod.mk.inj (heq.symm.trans hcall)
    refine ⟨fun K' hK' _ path hbefore => ?_, fun _ _ _ h => (by cases h), fun _ h => ?_⟩
    · obtain rfl := Except.ok.inj (hK.symm.trans hK')
      rw [hfound]
      exact find_put_some call.order call.handler hd K ((hfound t path).mp hbefore)
    · rw [hK] at h
      cases h
  · obtain ⟨rfl, rfl⟩ := Prod.mk.inj (heq.symm.trans hcall)
    exact ⟨fun _ _ h => (by cases h), fun _ _ _ _ _ => rfl, fun _ _ _ _ => rfl⟩
  · obtain ⟨rfl, rfl⟩ := Prod.mk.inj (heq.symm.trans hcall)
    refine ⟨fun _ h => ?_, fun _ _ h => ?_, fun _ _ hcond path => ?_⟩
    · rw [he] at h
      cases h
    · rw [he] at h
      cases h
    · rw [findRoute_eq, findRoute_eq, find_put_none call.order _ hd hcond]

/-- The tree of `Routes::Get(router, "/a", …)`. -/
def onlyA : SegmentTreeNode Nat := runAdds [⟨.back, lit "a", 1⟩] .empty

/-- A route below a new optional, and a bad path through one, hide what was found. -/
theorem addRoute_hides :
    onlyA.findRoute (lit "a") = some ⟨1, [], []⟩ ∧
    (onlyA.addRoute .back (lit "a/:x?/b") 2).2 = .ok () ∧
    (onlyA.addRoute .back (lit "a/:x?/b") 2).1.findRoute (lit "a") = none ∧
    (onlyA.addRoute .back (lit "a/:x?/b?c") 2).2 =
      .error "Only optional parameters are currently supported" ∧
    (onlyA.addRoute .back (lit "a/:x?/b?c") 2).1.findRoute (lit "a") = none := by
  refine ⟨by decide, rfl, by decide, rfl, by decide⟩

/-- A sibling route hides nothing. -/
theorem addRoute_keeps_sibling :
    ((onlyA.addRoute .back (lit "b") 2).1.findRoute (lit "a") ≠ none ↔
      ¬ Hides .back onlyA [.fixed (lit "b")] (segments (lit "a"))) :=
  (addRoute_keeps [⟨.back, lit "a", 1⟩] ⟨.back, lit "b", 2⟩ onlyA _ _ rfl rfl).1
    [.fixed (lit "b")] rfl rfl (lit "a") (by decide)

end Additions

end Pistache.Rest
