import Mathlib.Data.List.Sigma
import Pistache.Common.Bytes
import Pistache.Lib.Backtrack

/-!
# The segment tree of the router

`SegmentTreeNode` with `addRoute`, `removeRoute` and `findRoute`.  A path is a text of
segments between slashes; the three functions take the first segment off the path and recurse
with the rest (`lower_path`), and `segments` is the list of what they take off.

An `unordered_map` is the list of its entries in the order in which a loop over it meets them.
The standard leaves that order open, also for the entries already there when a new one comes in
and the map rehashes: `IterationOrder` is any choice.  A route is a value of any type; the
buffers that own the texts are left out.
-/

set_option autoImplicit false

namespace Pistache.Rest

open Backtrack

def slash : UInt8 := 47
def colon : UInt8 := 58
def asterisk : UInt8 := 42
def questionMark : UInt8 := 63

structure TypedParam where
  name : Bytes
  value : Bytes
  deriving DecidableEq, Repr

/-! ## Paths -/

def currentSegment (path : Bytes) : Bytes := path.takeWhile (· ≠ slash)

def lowerPath (path : Bytes) : Bytes := (path.dropWhile (· ≠ slash)).drop 1

def segmentsUpTo : Nat → Bytes → List Bytes
  | 0, _ => []
  | fuel + 1, path =>
    if path.isEmpty then [] else currentSegment path :: segmentsUpTo fuel (lowerPath path)

/-- The segments taken off a path one after the other until it is empty. -/
def segments (path : Bytes) : List Bytes := segmentsUpTo path.length path

theorem lowerPath_length {path : Bytes} (h : path ≠ []) :
    (lowerPath path).length < path.length := by
  have hle : (path.dropWhile (· ≠ slash)).length ≤ path.length :=
    (List.dropWhile_suffix _).length_le
  have hpos : 0 < path.length := List.length_pos_iff.mpr h
  unfold lowerPath
  rw [List.length_drop]
  omega

theorem segmentsUpTo_fuel : ∀ (m n : Nat) (path : Bytes), path.length ≤ m → path.length ≤ n →
    segmentsUpTo m path = segmentsUpTo n path := by
  intro m
  induction m with
  | zero =>
    intro n path hm _
    have hnil : path = [] := List.length_eq_zero_iff.mp (by omega)
    rw [hnil]
    cases n <;> rfl
  | succ m ih =>
    intro n path hm hn
    cases path with
    | nil => cases n <;> rfl
    | cons c rest =>
      cases n with
      | zero => simp at hn
      | succ n =>
        have hlt : (lowerPath (c :: rest)).length < (c :: rest).length := lowerPath_length (by simp)
        unfold segmentsUpTo
        rw [ih n (lowerPath (c :: rest)) (by omega) (by omega)]

/-- The recursion of the three functions: the first segment, then the lower path. -/
theorem segments_of_nonempty {path : Bytes} (h : path ≠ []) :
    segments path = currentSegment path :: segments (lowerPath path) := by
  have hlt := lowerPath_length h
  obtain ⟨n, hn⟩ : ∃ n, path.length = n + 1 := ⟨path.length - 1, by omega⟩
  unfold segments
  rw [hn, segmentsUpTo, if_neg (by simpa using h),
    segmentsUpTo_fuel n (lowerPath path).length _ (by omega) (Nat.le_refl _)]

/-! ## The tree -/

inductive SegmentType where
  | fixed
  | param
  | optional
  | splat
  deriving DecidableEq, Repr

structure SegmentTreeNode (R : Type) where
  fixed : List (Sigma fun _ : Bytes => SegmentTreeNode R)
  param : List (Sigma fun _ : Bytes => SegmentTreeNode R)
  optional : List (Sigma fun _ : Bytes => SegmentTreeNode R)
  splat : Option (SegmentTreeNode R)
  route : Option R

/-- An `unordered_map` from keys to child nodes. -/
abbrev Children (R : Type) := List (Sigma fun _ : Bytes => SegmentTreeNode R)

namespace SegmentTreeNode

variable {R : Type}

/-- The default constructor. -/
def empty : SegmentTreeNode R := ⟨[], [], [], none, none⟩

def getSegmentType : Bytes → Except String SegmentType
  | [] => .ok .fixed
  | c :: rest =>
    let optpos := (c :: rest).findIdx? (· = questionMark)
    if c = colon then
      match optpos with
      | some i =>
        if i ≠ (c :: rest).length - 1 then .error "? should be at the end of the string"
        else .ok .optional
      | none => .ok .param
    else if c = asterisk then
      if (c :: rest).length > 1 then .error "Invalid splat parameter" else .ok .splat
    else if optpos.isSome then .error "Only optional parameters are currently supported"
    else .ok .fixed

/-- The collection of a segment type; a splat has none. -/
def collection (n : SegmentTreeNode R) : SegmentType → Children R
  | .fixed => n.fixed
  | .param => n.param
  | .optional => n.optional
  | .splat => []

def setCollection (n : SegmentTreeNode R) : SegmentType → Children R → SegmentTreeNode R
  | .fixed, children => { n with fixed := children }
  | .param, children => { n with param := children }
  | .optional, children => { n with optional := children }
  | .splat, _ => n

/-- The key of a segment in its collection: an optional loses the trailing question mark. -/
def keyOf : SegmentType → Bytes → Bytes
  | .optional, segment => segment.dropLast
  | _, segment => segment

end SegmentTreeNode

/-- In which order a map iterates after a key was inserted with an empty node. -/
structure IterationOrder (R : Type) where
  insert : Bytes → Children R → Children R
  perm : ∀ key children, (insert key children).Perm (⟨key, .empty⟩ :: children)

namespace SegmentTreeNode

variable {R : Type}

/-! ## Adding a route -/

/-- `addRoute`, the path cut in segments.  A throw leaves the nodes created on the way. -/
def addSegments (order : IterationOrder R) (handler : R) :
    List Bytes → SegmentTreeNode R → SegmentTreeNode R × Except String Unit
  | [], n =>
    match n.route with
    | some _ => (n, .error "Requested route already exist.")
    | none => ({ n with route := some handler }, .ok ())
  | segment :: lower, n =>
    match getSegmentType segment with
    | .error e => (n, .error e)
    | .ok .splat =>
      let (child, outcome) := addSegments order handler lower (n.splat.getD empty)
      ({ n with splat := some child }, outcome)
    | .ok type =>
      let key := keyOf type segment
      -- the collection has the key from here on, so that `at` finds a node
      let children :=
        if (n.collection type).dlookup key = none then order.insert key (n.collection type)
        else n.collection type
      let (child, outcome) := addSegments order handler lower ((children.dlookup key).getD empty)
      (n.setCollection type (children.kreplace key child), outcome)

def addRoute (order : IterationOrder R) (n : SegmentTreeNode R) (path : Bytes) (handler : R) :
    SegmentTreeNode R × Except String Unit :=
  addSegments order handler (segments path) n

/-! ## Removing a route -/

def isEmpty (n : SegmentTreeNode R) : Bool :=
  n.fixed.isEmpty && n.param.isEmpty && n.optional.isEmpty && n.splat.isNone && n.route.isNone

/-- `removeRoute`, the path cut in segments, with what it returns.  Nothing has been changed
when it throws. -/
def removeSegments : List Bytes → SegmentTreeNode R → Except String (SegmentTreeNode R × Bool)
  | [], n =>
    let n : SegmentTreeNode R := { n with route := none }
    .ok (n, n.isEmpty)
  | segment :: lower, n =>
    match getSegmentType segment with
    | .error e => .error e
    | .ok .splat =>
      match n.splat with
      | none => .error "Requested route does not exist."
      | some child =>
        match removeSegments lower child with
        | .error e => .error e
        | .ok (child, removable) => .ok ({ n with splat := some child }, removable)
    | .ok type =>
      let key := keyOf type segment
      match (n.collection type).dlookup key with
      | none => .error "Requested route does not exist."
      | some child =>
        match removeSegments lower child with
        | .error e => .error e
        | .ok (child, removable) =>
          let n := n.setCollection type
            (if removable then (n.collection type).kerase key
             else (n.collection type).kreplace key child)
          .ok (n, n.isEmpty)

def removeRoute (n : SegmentTreeNode R) (path : Bytes) : Except String (SegmentTreeNode R × Bool) :=
  removeSegments (segments path) n

/-! ## Finding a route -/

/-- The vectors `params` and `splats`, which all attempts share. -/
structure Vectors where
  params : List TypedParam
  splats : List TypedParam

def Vectors.pushParam (param : TypedParam) (v : Vectors) : Vectors :=
  { v with params := v.params ++ [param] }

def Vectors.popParam (v : Vectors) : Vectors := { v with params := v.params.dropLast }

def Vectors.pushSplat (splat : TypedParam) (v : Vectors) : Vectors :=
  { v with splats := v.splats ++ [splat] }

def Vectors.popSplat (v : Vectors) : Vectors := { v with splats := v.splats.dropLast }

/-- The tuple `findRoute` returns; no result stands for the null route and two empty vectors. -/
structure Found (R : Type) where
  route : R
  params : List TypedParam
  splats : List TypedParam
  deriving DecidableEq, Repr

/-- `findRoute` when the path has ended. -/
def findEnd : SegmentTreeNode R → Attempt Vectors (Found R)
  | ⟨_, _, ⟨_, optional⟩ :: _, _, _⟩ => findEnd optional
  | ⟨_, _, [], _, none⟩ => Attempt.fail
  -- the vectors are moved from
  | ⟨_, _, [], _, some route⟩ => fun v => (some ⟨route, v.params, v.splats⟩, ⟨[], []⟩)

/-- `findRoute` with the vectors of its caller, the path cut in segments. -/
def findSegments : List Bytes → SegmentTreeNode R → Attempt Vectors (Found R)
  | [], n => n.findEnd
  | segment :: lower, n =>
    let fixed : Attempt Vectors (Found R) :=
      match n.fixed.dlookup segment with
      | some child => findSegments lower child
      | none => Attempt.fail
    let param := Attempt.firstOf (fun entry =>
      (findSegments lower entry.2).during
        (Vectors.pushParam ⟨entry.1, segment⟩) Vectors.popParam) n.param
    -- the second attempt takes the segment all the same, only without a binding
    let optional := Attempt.firstOf (fun entry =>
      ((findSegments lower entry.2).during
        (Vectors.pushParam ⟨entry.1, segment⟩) Vectors.popParam).orElse
          (findSegments lower entry.2)) n.optional
    let splat : Attempt Vectors (Found R) :=
      match n.splat with
      | some child => (findSegments lower child).during
          (Vectors.pushSplat ⟨segment, segment⟩) Vectors.popSplat
      | none => Attempt.fail
    ((fixed.orElse param).orElse optional).orElse splat

def findRoute (n : SegmentTreeNode R) (path : Bytes) : Option (Found R) :=
  (findSegments (segments path) n ⟨[], []⟩).1

end SegmentTreeNode

end Pistache.Rest
