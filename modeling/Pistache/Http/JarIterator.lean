import Pistache.Http.Cookie

/-!
# The iterator of a cookie jar

`CookieJar::Storage` is a map of maps: the cookies of a name stand by their value in a map of
their own.  `CookieJar::iterator` goes through both with two positions.  The order of a hash map
is any order, and an iterator of one is the list of the nodes from its own to the end.

Principal results:

* `Storage.flat_addAll` — the map of maps holds the cookies of the one table that the readers of
  cookies are stated with.
* `walk_begin` — either increment leads to each cookie once, and to the end.
* `iterated_iff` — what `it++` returns is the cookie in front of the increment if and only if no
  name has two values.
-/

set_option autoImplicit false

namespace Pistache.Http.CookieJar

open Replay

/-! ## The map of maps -/

/-- `HashMapCookies`, from a value to a cookie. -/
abbrev HashMapCookies := List (Bytes × Cookie)

/-- A node of the outer map. -/
abbrev Node := Bytes × HashMapCookies

/-- The node of a name has the cookies of the name, each under its value. -/
structure Node.Keyed (node : Node) : Prop where
  filled : node.2 ≠ []
  keys : ∀ e ∈ node.2, (node.1, e.1) = (e.2.name, e.2.value)
  nodup : (node.2.map Prod.fst).Nodup

/-- `Storage`. -/
structure Storage where
  nodes : List Node
  names : (nodes.map Prod.fst).Nodup
  keyed : ∀ node ∈ nodes, node.Keyed

/-- `CookieJar::add`: a map of its own for a new name, an entry of its map for another one. -/
def addNode (cookie : Cookie) : List Node → List Node
  | [] => [(cookie.name, [(cookie.value, cookie)])]
  | node :: nodes =>
    if node.1 = cookie.name then (node.1, insertNew cookie.value cookie node.2) :: nodes
    else node :: addNode cookie nodes

theorem addNode_names (cookie : Cookie) : ∀ nodes : List Node,
    (addNode cookie nodes).map Prod.fst =
      if cookie.name ∈ nodes.map Prod.fst then nodes.map Prod.fst
      else nodes.map Prod.fst ++ [cookie.name]
  | [] => rfl
  | node :: nodes => by
    have ih := addNode_names cookie nodes
    unfold addNode
    by_cases hname : node.1 = cookie.name
    · rw [if_pos hname, List.map_cons, List.map_cons, if_pos (by rw [hname]; exact List.mem_cons_self)]
    · have hmem : cookie.name ∈ (node :: nodes).map Prod.fst ↔ cookie.name ∈ nodes.map Prod.fst := by
        rw [List.map_cons, List.mem_cons]
        exact or_iff_right (Ne.symm hname)
      rw [if_neg hname, List.map_cons, ih]
      by_cases hin : cookie.name ∈ nodes.map Prod.fst
      · rw [if_pos hin, if_pos (hmem.mpr hin)]
        rfl
      · rw [if_neg hin, if_neg (mt hmem.mp hin)]
        rfl

theorem Node.Keyed.insert {node : Node} (h : node.Keyed) {cookie : Cookie}
    (hname : node.1 = cookie.name) :
    Node.Keyed (node.1, insertNew cookie.value cookie node.2) where
  filled := by
    show insertNew cookie.value cookie node.2 ≠ []
    unfold insertNew
    split
    · exact h.filled
    · simp
  keys e he := by
    have hin : e ∈ node.2 ∨ e ∈ [(cookie.value, cookie)] :=
      mem_applyAll_insertNew (show e ∈ applyAll _ [(cookie.value, cookie)] node.2 from he)
    rcases hin with hold | hnew
    · exact h.keys e hold
    · obtain rfl := List.mem_singleton.mp hnew
      show (node.1, cookie.value) = (cookie.name, cookie.value)
      rw [hname]
  nodup := insertNew_nodup h.nodup

theorem addNode_keyed (cookie : Cookie) : ∀ {nodes : List Node}, (∀ node ∈ nodes, node.Keyed) →
    ∀ node ∈ addNode cookie nodes, node.Keyed
  | [], _, node, hnode => by
    obtain rfl := List.mem_singleton.mp hnode
    exact ⟨by simp, by simp, by simp⟩
  | first :: nodes, h, node, hnode => by
    have hfirst := h first List.mem_cons_self
    have hrest : ∀ node ∈ nodes, node.Keyed := fun node hin => h node (List.mem_cons_of_mem first hin)
    unfold addNode at hnode
    split at hnode
    · rename_i hname
      rcases List.mem_cons.mp hnode with rfl | hin
      · exact hfirst.insert hname
      · exact hrest node hin
    · rcases List.mem_cons.mp hnode with rfl | hin
      · exact hfirst
      · exact addNode_keyed cookie hrest node hin

def Storage.empty : Storage := ⟨[], List.nodup_nil, by simp⟩

def Storage.add (storage : Storage) (cookie : Cookie) : Storage where
  nodes := addNode cookie storage.nodes
  names := by
    rw [addNode_names]
    split
    · exact storage.names
    · rename_i hnew
      rw [List.nodup_append]
      refine ⟨storage.names, by simp, fun a ha b hb hab => hnew ?_⟩
      obtain rfl := List.mem_singleton.mp hb
      exact hab ▸ ha
  keyed := addNode_keyed cookie storage.keyed

/-! ## One table -/

/-- The entries of a node, under the name and the value. -/
def flatNode (node : Node) : CookieJar := node.2.map fun e => ((node.1, e.1), e.2)

def flatNodes (nodes : List Node) : CookieJar := nodes.flatMap flatNode

def Storage.flat (storage : Storage) : CookieJar := flatNodes storage.nodes

theorem lookup_flatNode (name value : Bytes) : ∀ entries : HashMapCookies,
    (flatNode (name, entries)).lookup (name, value) = entries.lookup value
  | [] => rfl
  | (v, c) :: entries => by
    have ih := lookup_flatNode name value entries
    show List.lookup (name, value) (((name, v), c) :: flatNode (name, entries)) = _
    rw [List.lookup_cons, List.lookup_cons, ih]
    have hkey : ((name, value) == (name, v)) = (value == v) := by
      rw [Bool.eq_iff_iff, beq_iff_eq, beq_iff_eq, Prod.mk.injEq]
      exact and_iff_right rfl
    rw [hkey]

theorem lookup_flatNode_ne {name : Bytes} {node : Node} (h : node.1 ≠ name) (value : Bytes) :
    (flatNode node).lookup (name, value) = none := by
  rw [List.lookup_eq_none_iff]
  intro e he
  obtain ⟨x, -, rfl⟩ := List.mem_map.mp he
  rw [bne_iff_ne]
  exact fun heq => h (congrArg Prod.fst heq).symm

theorem lookup_flatNodes_none {name : Bytes} {nodes : List Node}
    (h : name ∉ nodes.map Prod.fst) (value : Bytes) :
    (flatNodes nodes).lookup (name, value) = none := by
  induction nodes with
  | nil => rfl
  | cons node nodes ih =>
    rw [List.map_cons, List.mem_cons, not_or] at h
    show (flatNode node ++ flatNodes nodes).lookup (name, value) = none
    rw [List.lookup_append, lookup_flatNode_ne (Ne.symm h.1), ih h.2]
    rfl

theorem flatNodes_addNode (cookie : Cookie) : ∀ {nodes : List Node}, (nodes.map Prod.fst).Nodup →
    (flatNodes (addNode cookie nodes)).Perm (CookieJar.add (flatNodes nodes) cookie)
  | [], _ => List.Perm.refl _
  | (name, entries) :: nodes, h => by
    rw [List.map_cons, List.nodup_cons] at h
    have ih := flatNodes_addNode cookie h.2
    have hcons : flatNodes ((name, entries) :: nodes) = flatNode (name, entries) ++ flatNodes nodes := rfl
    unfold addNode
    by_cases hname : name = cookie.name
    · -- the cookie belongs to this node, and no other node has its name
      subst hname
      have hlookup : (flatNode (cookie.name, entries) ++ flatNodes nodes).lookup
          (cookie.name, cookie.value) = entries.lookup cookie.value := by
        rw [List.lookup_append, lookup_flatNode, lookup_flatNodes_none h.1, Option.or_none]
      rw [if_pos rfl, hcons, CookieJar.add]
      show (flatNode (cookie.name, insertNew cookie.value cookie entries) ++ flatNodes nodes).Perm _
      unfold insertNew
      rw [hlookup]
      split
      · exact List.Perm.refl _
      · have hsnoc : flatNode (cookie.name, entries ++ [(cookie.value, cookie)]) =
            flatNode (cookie.name, entries) ++ [((cookie.name, cookie.value), cookie)] := by
          simp [flatNode]
        rw [hsnoc, List.append_assoc, List.append_assoc]
        exact List.perm_append_comm.append_left _
    · have hlookup : (flatNode (name, entries) ++ flatNodes nodes).lookup
          (cookie.name, cookie.value) = (flatNodes nodes).lookup (cookie.name, cookie.value) := by
        rw [List.lookup_append, lookup_flatNode_ne hname, Option.none_or]
      rw [if_neg hname, hcons]
      show (flatNode (name, entries) ++ flatNodes (addNode cookie nodes)).Perm _
      refine (ih.append_left _).trans ?_
      unfold CookieJar.add insertNew
      rw [hlookup]
      split
      · exact List.Perm.refl _
      · rw [List.append_assoc]

/-- **One table holds the same cookies**, before and behind an `add`. -/
theorem Storage.flat_add (storage : Storage) (cookie : Cookie) {jar : CookieJar}
    (h : storage.flat.Perm jar) (hnodup : (jar.map Prod.fst).Nodup) :
    (storage.add cookie).flat.Perm (CookieJar.add jar cookie) := by
  refine (flatNodes_addNode cookie storage.names).trans ?_
  show (insertNew _ _ storage.flat).Perm (insertNew _ _ jar)
  have hflat : (storage.flat.map Prod.fst).Nodup := ((h.map Prod.fst).nodup_iff).mpr hnodup
  unfold insertNew
  rw [lookup_congr (fun v => h.mem_iff) hnodup]
  split
  · exact h
  · exact h.append_right _

theorem Storage.flat_addAll (cookies : List Cookie) :
    (cookies.foldl Storage.add Storage.empty).flat.Perm
      (applyAll (fun c jar => CookieJar.add jar c) cookies []) := by
  have hrun : ∀ (cookies : List Cookie) (storage : Storage) (jar : CookieJar),
      storage.flat.Perm jar → (jar.map Prod.fst).Nodup →
        (cookies.foldl Storage.add storage).flat.Perm
          (applyAll (fun c jar => CookieJar.add jar c) cookies jar) := by
    intro cookies
    induction cookies with
    | nil => exact fun storage jar h _ => h
    | cons cookie cookies ih =>
      intro storage jar h hnodup
      exact ih _ _ (storage.flat_add cookie h hnodup) (insertNew_nodup hnodup)
  exact hrun cookies Storage.empty [] (List.Perm.refl _) List.nodup_nil

/-! ## The iterator -/

structure Iterator where
  iter_storage : List Node
  iter_cookie_values : HashMapCookies
  iter_storage_end : List Node

namespace Iterator

/-- `iterator(_iterator)`; a default constructed iterator of a map is at no node. -/
def ofStorage (iter : List Node) : Iterator := ⟨iter, [], []⟩

/-- `iterator(_iterator, end)`. -/
def ofRange (iter fin : List Node) : Iterator :=
  if iter ≠ fin then ⟨iter, (iter.head?.map Prod.snd).getD [], fin⟩ else ⟨iter, [], fin⟩

/-- `operator*`; nothing at the end of a map. -/
def deref (it : Iterator) : Option Cookie := it.iter_cookie_values.head?.map Prod.snd

/-- `operator++()`. -/
def preIncrement (it : Iterator) : Iterator :=
  let values := it.iter_cookie_values.tail
  if values = [] then
    let nodes := it.iter_storage.tail
    if nodes ≠ it.iter_storage_end then
      { it with iter_storage := nodes, iter_cookie_values := (nodes.head?.map Prod.snd).getD [] }
    else { it with iter_storage := nodes, iter_cookie_values := values }
  else { it with iter_cookie_values := values }

/-- `operator++(int)`: what is returned, and what the iterator has become. -/
def postIncrement (it : Iterator) : Iterator × Iterator :=
  let ret := ofRange it.iter_storage it.iter_storage_end
  let values := it.iter_cookie_values.tail
  if values = [] then
    let nodes := it.iter_storage.tail
    if nodes ≠ it.iter_storage_end then
      (ret, { it with iter_storage := nodes, iter_cookie_values := (nodes.head?.map Prod.snd).getD [] })
    else (ret, { it with iter_storage := nodes, iter_cookie_values := values })
  else (ret, { it with iter_cookie_values := values })

/-- `operator!=`. -/
def differs (it other : Iterator) : Bool := it.iter_storage ≠ other.iter_storage

end Iterator

def Storage.begin (storage : Storage) : Iterator := Iterator.ofRange storage.nodes []

/-- `end()`: the nodes from the end of the map on. -/
def Storage.fin (_ : Storage) : Iterator := Iterator.ofStorage []

/-- `for (; it != end; <increment>) visit(*it);`: what has been visited, when the loop ends
within the fuel and each `*it` is a cookie. -/
def walk (increment : Iterator → Iterator) (fin : Iterator) : Nat → Iterator → Option (List Cookie)
  | 0, _ => none
  | fuel + 1, it =>
    if it.differs fin then do
      let cookie ← it.deref
      let cookies ← walk increment fin fuel (increment it)
      return cookie :: cookies
    else some []

/-- The cookies of a jar, in its order. -/
def Storage.cookies (storage : Storage) : List Cookie := storage.flat.map Prod.snd

/-! ## What an increment leaves -/

namespace Iterator

/-- Both increments come to the same place. -/
theorem postIncrement_snd (it : Iterator) : it.postIncrement.2 = it.preIncrement := by
  unfold postIncrement preIncrement
  dsimp only
  split
  · split
    · rfl
    · rfl
  · rfl

/-- An iterator at a cookie of a node, or at the end. -/
inductive Valid : Iterator → Prop where
  | fin (values : HashMapCookies) : Valid ⟨[], values, []⟩
  | cookie (node : Node) (nodes : List Node) (e : Bytes × Cookie) (values : HashMapCookies)
      (suffix : e :: values <:+ node.2) (filled : ∀ node ∈ nodes, node.2 ≠ []) :
      Valid ⟨node :: nodes, e :: values, []⟩

/-- What is in front of an iterator. -/
def remaining (it : Iterator) : List Cookie :=
  match it.iter_storage with
  | [] => []
  | _ :: nodes => (it.iter_cookie_values ++ nodes.flatMap Prod.snd).map Prod.snd

theorem ofRange_valid {nodes : List Node} (h : ∀ node ∈ nodes, node.2 ≠ []) :
    Valid (ofRange nodes []) := by
  cases nodes with
  | nil => exact .fin []
  | cons node nodes =>
    obtain ⟨e, values, hnode⟩ := List.exists_cons_of_ne_nil (h node List.mem_cons_self)
    have hrange : ofRange (node :: nodes) [] = ⟨node :: nodes, e :: values, []⟩ := by
      simp [ofRange, hnode]
    rw [hrange]
    exact .cookie node nodes e values (hnode ▸ List.suffix_refl _) fun n hn => h n (List.mem_cons_of_mem node hn)

/-- The increment goes on in the map of the name. -/
theorem preIncrement_inside (nodes : List Node) (e e' : Bytes × Cookie) (values : HashMapCookies) :
    preIncrement ⟨nodes, e :: e' :: values, []⟩ = ⟨nodes, e' :: values, []⟩ := rfl

/-- The increment goes on to the map of another name, or to the end. -/
theorem preIncrement_last (node : Node) (nodes : List Node) (e : Bytes × Cookie) :
    preIncrement ⟨node :: nodes, [e], []⟩ = ofRange nodes [] := by
  unfold preIncrement ofRange
  dsimp only [List.tail_cons]
  rw [if_pos rfl]

/-- **One step of a walk**: at a cookie the increment takes this one from what is in front. -/
theorem preIncrement_valid {it : Iterator} (h : it.Valid) (hne : it.iter_storage ≠ []) :
    ∃ cookie, it.deref = some cookie ∧ it.remaining = cookie :: it.preIncrement.remaining ∧
      it.preIncrement.Valid := by
  cases h with
  | fin values => exact absurd rfl hne
  | cookie node nodes e values suffix filled =>
    refine ⟨e.2, rfl, ?_⟩
    cases values with
    | cons e' values =>
      rw [preIncrement_inside]
      exact ⟨rfl, .cookie node nodes e' values ((List.suffix_cons e _).trans suffix) filled⟩
    | nil =>
      rw [preIncrement_last]
      refine ⟨?_, ofRange_valid filled⟩
      cases nodes with
      | nil => rfl
      | cons next nodes => rfl

end Iterator

/-! ## Walks -/

theorem differs_fin {storage : Storage} {it : Iterator} :
    it.differs storage.fin = true ↔ it.iter_storage ≠ [] := by
  unfold Iterator.differs
  exact decide_eq_true_iff

theorem walk_valid (storage : Storage) {increment : Iterator → Iterator}
    (hincrement : ∀ it, increment it = it.preIncrement) : ∀ {fuel : Nat} {it : Iterator},
      it.Valid → it.remaining.length < fuel →
        walk increment storage.fin fuel it = some it.remaining
  | 0, _, _, hfuel => absurd hfuel (Nat.not_lt_zero _)
  | fuel + 1, it, hvalid, hfuel => by
    unfold walk
    by_cases hnil : it.iter_storage = []
    · have hnone : it.remaining = [] := by
        unfold Iterator.remaining
        rw [hnil]
      rw [if_neg fun hne => differs_fin.mp hne hnil, hnone]
    · have hon : it.differs storage.fin = true := differs_fin.mpr hnil
      obtain ⟨cookie, hderef, hremaining, hnext⟩ := Iterator.preIncrement_valid hvalid hnil
      rw [hremaining, List.length_cons] at hfuel
      have ih := walk_valid storage hincrement hnext (show _ < fuel by omega)
      rw [if_pos hon, hderef, hincrement, ih, hremaining]
      rfl

theorem Storage.filled (storage : Storage) : ∀ node ∈ storage.nodes, node.2 ≠ [] :=
  fun node hnode => (storage.keyed node hnode).filled

theorem Storage.begin_remaining (storage : Storage) : storage.begin.remaining = storage.cookies := by
  have hnode : ∀ node : Node, (flatNode node).map Prod.snd = node.2.map Prod.snd := by
    intro node
    rw [flatNode, List.map_map]
    rfl
  have hnodes : ∀ nodes : List Node, (flatNodes nodes).map Prod.snd = (nodes.flatMap Prod.snd).map Prod.snd := by
    intro nodes
    rw [flatNodes, List.map_flatMap, List.map_flatMap]
    exact congrArg (List.flatMap · nodes) (funext hnode)
  rw [Storage.cookies, Storage.flat, hnodes, Storage.begin]
  cases storage.nodes with
  | nil => rfl
  | cons node nodes => rfl

/-- **A walk from `begin()` visits each cookie once**, and comes to the end. -/
theorem walk_begin (storage : Storage) {increment : Iterator → Iterator}
    (hincrement : ∀ it, increment it = it.preIncrement) {fuel : Nat}
    (hfuel : storage.cookies.length < fuel) :
    walk increment storage.fin fuel storage.begin = some storage.cookies := by
  rw [← storage.begin_remaining] at hfuel ⊢
  exact walk_valid storage hincrement (Iterator.ofRange_valid storage.filled) hfuel

/-! ## What `it++` returns -/

/-- The iterators that increments lead to from `begin()`. -/
inductive Reached (storage : Storage) : Iterator → Prop where
  | start : Reached storage storage.begin
  | next {it : Iterator} (h : Reached storage it) (hne : it.differs storage.fin = true) :
      Reached storage it.preIncrement

/-- An iterator of the jar, at a cookie of one of its nodes or at the end. -/
theorem Reached.valid {storage : Storage} {it : Iterator} (h : Reached storage it) :
    it.Valid ∧ it.iter_storage <:+ storage.nodes := by
  induction h with
  | start =>
    refine ⟨Iterator.ofRange_valid storage.filled, ?_⟩
    unfold Storage.begin Iterator.ofRange
    split
    · exact List.suffix_refl _
    · exact List.suffix_refl _
  | next h hne ih =>
    obtain ⟨hvalid, hsuffix⟩ := ih
    obtain ⟨cookie, -, -, hnext⟩ := Iterator.preIncrement_valid hvalid (differs_fin.mp hne)
    refine ⟨hnext, List.IsSuffix.trans ?_ hsuffix⟩
    unfold Iterator.preIncrement
    dsimp only
    split
    · split
      · exact List.tail_suffix _
      · exact List.tail_suffix _
    · exact List.suffix_refl _

/-- Within the map of a name each cookie is reached from the first one. -/
theorem Reached.inside {storage : Storage} {nodes : List Node} (hnodes : nodes ≠ []) :
    ∀ {front back : HashMapCookies}, back ≠ [] → Reached storage ⟨nodes, front ++ back, []⟩ →
      Reached storage ⟨nodes, back, []⟩
  | [], _, _, h => h
  | e :: front, back, hback, h => by
    have hnext := h.next (differs_fin.mpr hnodes)
    obtain ⟨e', values, heq⟩ := List.exists_cons_of_ne_nil
      (show front ++ back ≠ [] by simp [hback])
    refine Reached.inside hnodes hback (?_ : Reached storage ⟨nodes, front ++ back, []⟩)
    rw [List.cons_append, heq, Iterator.preIncrement_inside] at hnext
    rw [heq]
    exact hnext

/-- The first cookie of each name is reached. -/
theorem Reached.first {storage : Storage} : ∀ {front : List Node} {node : Node} {nodes : List Node},
    (∀ n ∈ front ++ node :: nodes, n.2 ≠ []) →
      Reached storage (Iterator.ofRange (front ++ node :: nodes) []) →
        Reached storage (Iterator.ofRange (node :: nodes) [])
  | [], _, _, _, h => h
  | n :: front, node, nodes, hfilled, h => by
    have hn := hfilled n List.mem_cons_self
    have hlast : n.2 = n.2.dropLast ++ [n.2.getLast hn] := (List.dropLast_concat_getLast hn).symm
    have hrange : Iterator.ofRange (n :: front ++ node :: nodes) [] =
        ⟨n :: (front ++ node :: nodes), n.2, []⟩ := rfl
    rw [hrange, hlast] at h
    have hback := Reached.inside (by simp) (by simp) h
    have hnext := hback.next (differs_fin.mpr (by simp))
    rw [Iterator.preIncrement_last] at hnext
    exact Reached.first (fun m hm => hfilled m (List.mem_cons_of_mem n hm)) hnext

/-- **`it++` returns the first cookie of the name.**  It is the cookie in front of the increment
if and only if the iterator has been there. -/
theorem postIncrement_deref_iff {storage : Storage} {it : Iterator} (h : Reached storage it)
    {node : Node} {nodes : List Node} (hit : it.iter_storage = node :: nodes) :
    it.postIncrement.1.deref = it.deref ↔ it.iter_cookie_values = node.2 := by
  obtain ⟨hvalid, hsuffix⟩ := h.valid
  have hret : ∀ it : Iterator, it.postIncrement.1 = Iterator.ofRange it.iter_storage it.iter_storage_end := by
    intro it
    unfold Iterator.postIncrement
    dsimp only
    split
    · split
      · rfl
      · rfl
    · rfl
  cases hvalid with
  | fin values => exact nomatch hit
  | cookie first rest e values suffix filled =>
    obtain ⟨rfl, rfl⟩ := List.cons.inj hit
    have hnode := storage.keyed first (hsuffix.mem List.mem_cons_self)
    rw [hret]
    show Iterator.deref ⟨first :: rest, first.2, []⟩ = some e.2 ↔ e :: values = first.2
    constructor
    · intro hderef
      obtain ⟨front, hfront⟩ := suffix
      cases front with
      | nil => exact hfront
      | cons e' front =>
        -- the first cookie would have the value of another one
        exfalso
        rw [← hfront] at hderef
        obtain hsame : e'.2 = e.2 := Option.some.inj hderef
        have hkeys := hnode.keys
        have hnodup := hnode.nodup
        rw [← hfront] at hkeys hnodup
        have hvalue : e'.1 = e.1 := by
          have h₁ := congrArg Prod.snd (hkeys e' (by simp))
          have h₂ := congrArg Prod.snd (hkeys e (by simp))
          dsimp only at h₁ h₂
          rw [h₁, h₂, hsame]
        rw [List.cons_append, List.map_cons, List.nodup_cons] at hnodup
        exact hnodup.1 (List.mem_map.mpr ⟨e, by simp, hvalue.symm⟩)
    · intro heq
      rw [← heq]
      rfl

/-- The iteration of a jar: with each increment every cookie once and then the end, and `it++`
returns what has been there. -/
structure Iterated (storage : Storage) : Prop where
  pre : ∀ fuel, storage.cookies.length < fuel →
    walk Iterator.preIncrement storage.fin fuel storage.begin = some storage.cookies
  post : ∀ fuel, storage.cookies.length < fuel →
    walk (fun it => it.postIncrement.2) storage.fin fuel storage.begin = some storage.cookies
  returned : ∀ it, Reached storage it → it.differs storage.fin = true →
    it.postIncrement.1.deref = it.deref

/-- **Every jar is iterated, but for what `it++` returns**: this is right if and only if no name
has two values. -/
theorem iterated_iff (storage : Storage) :
    Iterated storage ↔ ∀ node ∈ storage.nodes, node.2.length = 1 := by
  constructor
  · intro h node hnode
    obtain ⟨front, nodes, hnodes⟩ := List.append_of_mem hnode
    have hfilled := storage.filled
    have hstart : Reached storage (Iterator.ofRange storage.nodes []) := .start
    rw [hnodes] at hfilled hstart
    have hfirst := Reached.first hfilled hstart
    cases hvalues : node.2 with
    | nil => exact absurd hvalues (hfilled node (by simp))
    | cons e values =>
      cases values with
      | nil => rfl
      | cons e' values =>
        -- the second cookie of the name is reached as well
        exfalso
        have hrange : Iterator.ofRange (node :: nodes) [] = ⟨node :: nodes, [e] ++ e' :: values, []⟩ := by
          simp [Iterator.ofRange, hvalues]
        rw [hrange] at hfirst
        have hsecond := Reached.inside (by simp) (by simp) hfirst
        have hreturned := h.returned _ hsecond (differs_fin.mpr (by simp))
        have hsame := (postIncrement_deref_iff hsecond rfl).mp hreturned
        have hlength := congrArg List.length (hsame.trans hvalues)
        simp at hlength
  · intro h
    refine ⟨fun fuel hfuel => walk_begin storage (fun it => rfl) hfuel,
      fun fuel hfuel => walk_begin storage Iterator.postIncrement_snd hfuel, ?_⟩
    intro it hreached hne
    obtain ⟨hvalid, hsuffix⟩ := hreached.valid
    cases hvalid with
    | fin values => exact absurd rfl (differs_fin.mp hne)
    | cookie node nodes e values suffix filled =>
      refine (postIncrement_deref_iff hreached rfl).mpr ?_
      have hone := h node (hsuffix.mem List.mem_cons_self)
      refine suffix.eq_of_length_le ?_
      rw [hone, List.length_cons]
      omega

/-- A jar with two cookies of one name: behind the first increment `it++` returns the first
cookie once more. -/
theorem postIncrement_second :
    let storage := (Storage.empty.add (Cookie.new (lit "a") (lit "1"))).add
      (Cookie.new (lit "a") (lit "2"))
    let it := storage.begin.preIncrement
    Reached storage it ∧ it.differs storage.fin = true ∧
      it.deref = some (Cookie.new (lit "a") (lit "2")) ∧
      it.postIncrement.1.deref = some (Cookie.new (lit "a") (lit "1")) ∧
      ¬∀ storage, Iterated storage := by
  intro storage it
  have hreached : Reached storage it := .next .start (by decide)
  have hne : it.differs storage.fin = true := by decide
  have hderef : it.deref = some (Cookie.new (lit "a") (lit "2")) := by decide
  have hret : it.postIncrement.1.deref = some (Cookie.new (lit "a") (lit "1")) := by decide
  refine ⟨hreached, hne, hderef, hret, fun h => ?_⟩
  have hsame := (h storage).returned it hreached hne
  rw [hderef, hret] at hsame
  exact absurd hsame (by decide)

end Pistache.Http.CookieJar
