import Pistache.Async.Section
import Mathlib.Data.List.Induction
import Mathlib.Data.List.Perm.Subperm

/-!
# whenAll and whenAny

The continuations that the combinators attach to their inputs, over the data that these share.
An order is the list of the settlements that the continuations see, each with the position of its
input: an input that is settled already is seen when the combinator attaches to it.

* `All.step_inv`, `WhenAllRange.step_inv`, `Any.step_inv` — one settlement of an input.
* `combinators` — over all orders: the promise of a combinator is settled as it should and no
  settlement of an input throws, exactly when at most one input of a tuple is rejected, and when
  a range is not empty.
-/

set_option autoImplicit false

namespace Pistache.Async

/-- What the continuation of an input is called with. -/
inductive Input (V E : Type) where
  | resolved (v : V)
  | rejected (e : E)
  deriving DecidableEq, Repr

abbrev Order (V E : Type) := List (Nat × Input V E)

/-- The exception that `make_exception_ptr` makes of the pointer to the exception of an input. -/
inductive Wrapped (E : Type) where
  | ptr (e : E)
  deriving DecidableEq, Repr

variable {V E R X : Type}

/-! ## The promise of a combinator -/

namespace Core

/-- `Resolver::operator()` on the core of the combinator. -/
def resolver (core : Core R X) (arg : Option R) : Except String (Core R X) :=
  if core.state ≠ .pending then .error "Attempt to resolve a fulfilled promise"
  else .ok { core with state := .fulfilled, value := arg }

/-- `Rejection::operator()` on the core of the combinator. -/
def rejection (core : Core R X) (exc : X) : Except String (Core R X) :=
  if core.state ≠ .pending then .error "Attempt to reject a fulfilled promise"
  else .ok { core with state := .rejected, exc := some exc }

variable {core : Core R X}

theorem resolver_of_pending (h : core.outcome = none) (arg : Option R) :
    core.resolver arg = .ok { core with state := .fulfilled, value := arg } :=
  if_neg (not_not.mpr (outcome_eq_none.mp h))

theorem rejection_of_pending (h : core.outcome = none) (exc : X) :
    core.rejection exc = .ok { core with state := .rejected, exc := some exc } :=
  if_neg (not_not.mpr (outcome_eq_none.mp h))

theorem rejection_of_settled {o : Outcome R X} (h : core.outcome = some o) (exc : X) :
    core.rejection exc = .error "Attempt to reject a fulfilled promise" :=
  if_pos (not_pending_of_outcome h)

end Core

/-- The resolver of a typed promise is the test and the section of the call. -/
theorem System.enter_resolver (s : System R X) (n : Nat) (r : R)
    (hvoid : s.isVoid (.promise n) = false) :
    (s.cores (.promise n)).resolver (some r) =
      if s.test (.resolve n (.value r)) then
        .ok ((s.enter (.resolve n (.value r))).cores (.promise n))
      else .error "Attempt to resolve a fulfilled promise" := by
  have hcore : (s.enter (.resolve n (.value r))).cores (.promise n) =
      { s.cores (.promise n) with state := .fulfilled, value := some r } :=
    System.set_cores_self s _ _
  rw [hcore]
  by_cases hstate : (s.cores (.promise n)).state = .pending <;>
    simp [Core.resolver, System.test, Settle.core, hstate, hvoid]

theorem System.enter_rejection (s : System R X) (n : Nat) (exc : X) :
    (s.cores (.promise n)).rejection exc =
      if s.test (.reject n exc) then .ok ((s.enter (.reject n exc)).cores (.promise n))
      else .error "Attempt to reject a fulfilled promise" := by
  have hcore : (s.enter (.reject n exc)).cores (.promise n) =
      { s.cores (.promise n) with state := .rejected, exc := some exc } :=
    System.set_cores_self s _ _
  rw [hcore]
  by_cases hstate : (s.cores (.promise n)).state = .pending <;>
    simp [Core.rejection, System.test, Settle.core, hstate]

/-! ## The policies -/

namespace All

/-- The data of `whenAll`, for a tuple and for a range.  `threw` has what the settlements of the
inputs have thrown. -/
structure Data (V E : Type) where
  isVoid : Bool := false
  total : Nat
  resolved : Nat := 0
  rejected : Bool := false
  results : List V
  outer : Core (List V) (Wrapped E) := {}
  threw : List String := []

variable (data : Data V E)

/-- `data->resolve`, with the results when there are any. -/
def Data.resolve : Data V E :=
  match data.outer.resolver (if data.isVoid then none else some data.results) with
  | .ok core => { data with outer := core }
  | .error what => { data with threw := data.threw ++ [what] }

def Data.reject (exc : E) : Data V E :=
  match data.outer.rejection (.ptr exc) with
  | .ok core => { data with outer := core }
  | .error what => { data with threw := data.threw ++ [what] }

def resolveT (index : Nat) (val : V) : Data V E :=
  if data.rejected then data
  else
    let data := { data with
      results := data.results.set index val
      resolved := data.resolved + 1 }
    if data.resolved = data.total then data.resolve else data

def reject (exc : E) : Data V E :=
  { data with rejected := true }.reject exc

def settled : Nat × Input V E → Data V E
  | (index, .resolved val) => resolveT data index val
  | (_, .rejected exc) => reject data exc

/-- The data of a `whenAll` of `n` inputs after their settlements. -/
def run (results : List V) (order : Order V E) : Data V E :=
  order.foldl settled { total := results.length, results := results }

end All

namespace WhenAllRange

open All (Data)

variable (data : Data V E)

/-- `WhenContinuation`, of values and of void promises. -/
def continuation (index : Nat) (val : V) : Data V E :=
  if data.rejected then data
  else
    let data := { data with
      results := if data.isVoid then data.results else data.results.set index val
      resolved := data.resolved + 1 }
    if data.resolved = data.total then data.resolve else data

/-- The reject function of the inputs. -/
def reject (exc : E) : Data V E :=
  if data.rejected then data
  else { data with rejected := true }.reject exc

def settled : Nat × Input V E → Data V E
  | (index, .resolved val) => continuation data index val
  | (_, .rejected exc) => reject data exc

def run (isVoid : Bool) (results : List V) (order : Order V E) : Data V E :=
  order.foldl settled { isVoid := isVoid, total := results.length, results := results }

end WhenAllRange

namespace Any

structure Data (V E : Type) where
  done : Bool := false
  outer : Core V (Wrapped E) := {}
  threw : List String := []

variable (data : Data V E)

def resolveT (val : V) : Data V E :=
  if data.done then data
  else
    match data.outer.resolver (some val) with
    | .ok core => { data with outer := core, done := true }
    | .error what => { data with threw := data.threw ++ [what] }

def reject (exc : E) : Data V E :=
  let data := { data with done := true }
  match data.outer.rejection (.ptr exc) with
  | .ok core => { data with outer := core }
  | .error what => { data with threw := data.threw ++ [what] }

def settled : Nat × Input V E → Data V E
  | (_, .resolved val) => resolveT data val
  | (_, .rejected exc) => reject data exc

def run (order : Order V E) : Data V E :=
  order.foldl settled {}

end Any

/-! ## What is due -/

/-- Each input is settled once. -/
structure Order.Valid (n : Nat) (order : Order V E) : Prop where
  nodup : (order.map Prod.fst).Nodup
  lt : ∀ x ∈ order, x.1 < n

/-- The exceptions of the inputs that were rejected, in time. -/
def Order.rejected (order : Order V E) : List E :=
  order.filterMap fun
    | (_, .rejected e) => some e
    | (_, .resolved _) => none

/-- What the promise of a `whenAll` of `n` inputs is to have: the first rejection; the results,
each at its own position, once all are resolved; and nothing before. -/
def AllDue (isVoid : Bool) (n : Nat) (order : Order V E)
    (o : Option (Outcome (List V) (Wrapped E))) : Prop :=
  match order.rejected with
  | e :: _ => o = some (.rejected (some (.ptr e)))
  | [] =>
    if order.length = n then
      if isVoid then o = some (.fulfilled none)
      else ∃ results : List V, o = some (.fulfilled (some results)) ∧ results.length = n ∧
        ∀ i v, (i, .resolved v) ∈ order → results[i]? = some v
    else o = none

/-- What the promise of a `whenAny` is to have: the outcome of the first input. -/
def anyDue : Order V E → Option (Outcome V (Wrapped E))
  | [] => none
  | (_, .resolved v) :: _ => some (.fulfilled (some v))
  | (_, .rejected e) :: _ => some (.rejected (some (.ptr e)))

/-- Once settled, the promise of a combinator keeps its outcome. -/
def SettlesOnce (outer : Order V E → Core R X) (order : Order V E) : Prop :=
  ∀ before later, order = before ++ later →
    ∀ o, (outer before).outcome = some o → (outer order).outcome = some o

@[simp] theorem Order.rejected_nil : Order.rejected ([] : Order V E) = [] := rfl

@[simp] theorem Order.rejected_append (order later : Order V E) :
    Order.rejected (order ++ later) = order.rejected ++ Order.rejected later :=
  List.filterMap_append

@[simp] theorem Order.rejected_resolved (i : Nat) (v : V) (order : Order V E) :
    Order.rejected ((i, .resolved v) :: order) = Order.rejected order := rfl

@[simp] theorem Order.rejected_rejected (i : Nat) (e : E) (order : Order V E) :
    Order.rejected ((i, .rejected e) :: order) = e :: Order.rejected order := rfl

theorem Order.Valid.length_le {n : Nat} {order : Order V E} (h : order.Valid n) :
    order.length ≤ n := by
  have hsub : order.map Prod.fst ⊆ List.range n := by
    intro i hi
    obtain ⟨x, hx, rfl⟩ := List.mem_map.mp hi
    exact List.mem_range.mpr (h.lt x hx)
  have hle := (List.subperm_of_subset h.nodup hsub).length_le
  rwa [List.length_map, List.length_range] at hle

theorem Order.Valid.init {n : Nat} {order later : Order V E}
    (h : Order.Valid n (order ++ later)) : order.Valid n := by
  refine ⟨?_, fun x hx => h.lt x (List.mem_append_left _ hx)⟩
  have hnodup := h.nodup
  rw [List.map_append] at hnodup
  exact (List.nodup_append.mp hnodup).1

/-! ## whenAll -/

theorem All.resolve_of_pending {data : All.Data V E} (h : data.outer.outcome = none) :
    data.resolve = { data with outer := { data.outer with
      state := .fulfilled, value := if data.isVoid then none else some data.results } } := by
  rw [All.Data.resolve, Core.resolver_of_pending h]

theorem All.reject_of_pending {data : All.Data V E} (h : data.outer.outcome = none) (exc : E) :
    data.reject exc = { data with outer := { data.outer with
      state := .rejected, exc := some (.ptr exc) } } := by
  rw [All.Data.reject, Core.rejection_of_pending h]

theorem All.reject_of_settled {data : All.Data V E} {o : Outcome (List V) (Wrapped E)}
    (h : data.outer.outcome = some o) (exc : E) : data.reject exc =
      { data with threw := data.threw ++ ["Attempt to reject a fulfilled promise"] } := by
  rw [All.Data.reject, Core.rejection_of_settled h]

/-- The data of a `whenAll` after the settlements of an order. -/
structure AllInv (isVoid : Bool) (n : Nat) (order : Order V E) (data : All.Data V E) : Prop where
  isVoid_eq : data.isVoid = isVoid
  total : data.total = n
  length : data.results.length = n
  first : ∀ e es, order.rejected = e :: es →
    data.rejected = true ∧ data.outer.outcome = some (.rejected (some (.ptr e)))
  clear : order.rejected = [] → data.rejected = false ∧ data.resolved = order.length ∧
    (isVoid = false → ∀ i v, (i, .resolved v) ∈ order → data.results[i]? = some v) ∧
    data.outer.outcome = if order.length = n ∧ order ≠ [] then
      some (.fulfilled (if isVoid then none else some data.results)) else none

namespace AllInv

variable {isVoid : Bool} {n : Nat} {order : Order V E} {data : All.Data V E}

theorem nil (isVoid : Bool) (results : List V) :
    AllInv (E := E) isVoid results.length [] { isVoid, total := results.length, results } where
  isVoid_eq := rfl
  total := rfl
  length := rfl
  first e es h := by cases h
  clear _ := ⟨rfl, rfl, fun _ _ _ h => (nomatch h), by rw [if_neg fun h => h.2 rfl]; rfl⟩

/-- While an input is still to come, the promise is Pending or has been rejected. -/
theorem outcome_none (h : AllInv isVoid n order data) (hrejected : order.rejected = [])
    (hlt : order.length < n) : data.outer.outcome = none := by
  rw [(h.clear hrejected).2.2.2, if_neg fun heq => absurd heq.1 (Nat.ne_of_lt hlt)]

/-- An input is resolved. -/
theorem resolved (h : AllInv isVoid n order data) {i : Nat} {v : V} {results : List V}
    (hvalid : Order.Valid n (order ++ [(i, .resolved v)]))
    (hresults : results = if isVoid then data.results else data.results.set i v) :
    AllInv isVoid n (order ++ [(i, .resolved v)])
      (if data.rejected then data
        else
          let data := { data with results := results, resolved := data.resolved + 1 }
          if data.resolved = data.total then data.resolve else data) := by
  have hlen := hvalid.length_le
  rw [List.length_append, List.length_singleton] at hlen
  cases hrejected : order.rejected with
  | cons e es =>
    obtain ⟨hflag, houtcome⟩ := h.first e es hrejected
    rw [if_pos hflag]
    refine ⟨h.isVoid_eq, h.total, h.length, fun e' es' heq => ?_, fun heq => ?_⟩
    · simp only [Order.rejected_append, Order.rejected_resolved, Order.rejected_nil,
        List.append_nil, hrejected, List.cons.injEq] at heq
      obtain ⟨rfl, rfl⟩ := heq
      exact ⟨hflag, houtcome⟩
    · simp [hrejected] at heq
  | nil =>
    obtain ⟨hflag, hresolved, hplaced, _⟩ := h.clear hrejected
    have hpending := h.outcome_none hrejected hlen
    have hnone : Order.rejected (order ++ [(i, Input.resolved v)]) = ([] : List E) := by
      simp [hrejected]
    have hlength : results.length = n := by
      rw [hresults]
      split
      · exact h.length
      · rw [List.length_set, h.length]
    have hplaced' : isVoid = false → ∀ j w, (j, Input.resolved w) ∈
        order ++ [(i, (Input.resolved v : Input V E))] → results[j]? = some w := by
      intro hvoid j w hmem
      have hi : i < n := hvalid.lt (i, .resolved v) (List.mem_append_right _ (List.mem_singleton_self _))
      rw [hresults, hvoid, if_neg Bool.false_ne_true]
      rcases List.mem_append.mp hmem with hmem | hmem
      · have hne : i ≠ j := by
          have hnodup := hvalid.nodup
          rw [List.map_append, List.nodup_append] at hnodup
          exact fun heq => hnodup.2.2 j (List.mem_map_of_mem hmem) i (List.mem_singleton_self _) heq.symm
        rw [List.getElem?_set_ne hne]
        exact hplaced hvoid j w hmem
      · cases List.mem_singleton.mp hmem
        rw [List.getElem?_set_self (by rw [h.length]; exact hi)]
    rw [if_neg (by rw [hflag]; exact Bool.false_ne_true)]
    dsimp only
    have hcount : (order ++ [(i, (Input.resolved v : Input V E))]).length = n ↔
        data.resolved + 1 = data.total := by
      rw [List.length_append, List.length_singleton, hresolved, h.total]
    have hcons : order ++ [(i, (Input.resolved v : Input V E))] ≠ [] := List.concat_ne_nil _ _
    by_cases hall : data.resolved + 1 = data.total
    · rw [if_pos hall, All.resolve_of_pending (by exact hpending)]
      refine ⟨h.isVoid_eq, h.total, hlength, fun e es heq => ?_, fun _ => ?_⟩
      · rw [hnone] at heq
        cases heq
      · refine ⟨hflag, by simp [hresolved], hplaced', ?_⟩
        have hfull : (order ++ [(i, (Input.resolved v : Input V E))]).length = n ∧
            order ++ [(i, (Input.resolved v : Input V E))] ≠ [] := ⟨hcount.mpr hall, hcons⟩
        rw [if_pos hfull, ← h.isVoid_eq]
        rfl
    · rw [if_neg hall]
      refine ⟨h.isVoid_eq, h.total, hlength, fun e es heq => ?_, fun _ => ?_⟩
      · rw [hnone] at heq
        cases heq
      · refine ⟨hflag, by simp [hresolved], hplaced', ?_⟩
        rw [if_neg fun heq => hall (hcount.mp heq.1)]
        exact hpending

/-- The first rejection of an input. -/
theorem rejected_first (h : AllInv isVoid n order data) (hrejected : order.rejected = [])
    (hlt : order.length < n) (i : Nat) (exc : E) :
    AllInv isVoid n (order ++ [(i, .rejected exc)]) ({ data with rejected := true }.reject exc) := by
  have hpending := h.outcome_none hrejected hlt
  rw [All.reject_of_pending (by exact hpending)]
  refine ⟨h.isVoid_eq, h.total, h.length, fun e es heq => ?_, fun heq => ?_⟩
  · simp only [Order.rejected_append, hrejected, Order.rejected_rejected, Order.rejected_nil,
      List.nil_append, List.cons.injEq] at heq
    obtain ⟨rfl, _⟩ := heq
    exact ⟨rfl, rfl⟩
  · simp at heq

/-- After the first, a rejection changes nothing but what has been thrown. -/
theorem rejected_again (h : AllInv isVoid n order data) {e : E} {es : List E}
    (hrejected : order.rejected = e :: es) (i : Nat) (exc : E) (threw : List String) :
    AllInv isVoid n (order ++ [(i, .rejected exc)]) { data with rejected := true, threw := threw } := by
  obtain ⟨_, houtcome⟩ := h.first e es hrejected
  refine ⟨h.isVoid_eq, h.total, h.length, fun e' es' heq => ?_, fun heq => ?_⟩
  · simp only [Order.rejected_append, hrejected, List.cons_append, List.cons.injEq] at heq
    obtain ⟨rfl, _⟩ := heq
    exact ⟨rfl, houtcome⟩
  · simp at heq

/-- The promise is as it should be, unless there was no input. -/
theorem due (h : AllInv isVoid n order data) (hn : n ≠ 0) :
    AllDue isVoid n order data.outer.outcome := by
  unfold AllDue
  cases hrejected : order.rejected with
  | cons e es => exact (h.first e es hrejected).2
  | nil =>
    obtain ⟨_, _, hplaced, houtcome⟩ := h.clear hrejected
    dsimp only
    by_cases hall : order.length = n
    · have hne : order ≠ [] := by
        rintro rfl
        exact hn hall.symm
      rw [if_pos hall]
      rw [if_pos ⟨hall, hne⟩] at houtcome
      cases isVoid with
      | true => exact houtcome
      | false => exact ⟨data.results, houtcome, h.length, hplaced rfl⟩
    · rw [if_neg hall]
      rw [if_neg fun heq => hall heq.1] at houtcome
      exact houtcome

end AllInv

/-- One more settlement is seen by a continuation of a `whenAll` of a tuple. -/
theorem All.step_inv {n : Nat} {order : Order V E} {data : All.Data V E}
    (h : AllInv false n order data) {x : Nat × Input V E} (hvalid : Order.Valid n (order ++ [x])) :
    AllInv false n (order ++ [x]) (All.settled data x) := by
  have hlen := hvalid.length_le
  rw [List.length_append, List.length_singleton] at hlen
  obtain ⟨i, v | exc⟩ := x
  · exact h.resolved hvalid rfl
  · cases hrejected : order.rejected with
    | nil => exact h.rejected_first hrejected hlen i exc
    | cons e es =>
      have houtcome := (h.first e es hrejected).2
      rw [All.settled, All.reject, All.reject_of_settled (by exact houtcome)]
      exact h.rejected_again hrejected i exc _

theorem WhenAllRange.step_inv {isVoid : Bool} {n : Nat} {order : Order V E} {data : All.Data V E}
    (h : AllInv isVoid n order data) {x : Nat × Input V E}
    (hvalid : Order.Valid n (order ++ [x])) :
    AllInv isVoid n (order ++ [x]) (WhenAllRange.settled data x) := by
  have hlen := hvalid.length_le
  rw [List.length_append, List.length_singleton] at hlen
  obtain ⟨i, v | exc⟩ := x
  · refine h.resolved hvalid ?_
    rw [h.isVoid_eq]
  · cases hrejected : order.rejected with
    | nil =>
      rw [WhenAllRange.settled, WhenAllRange.reject, (h.clear hrejected).1,
        if_neg Bool.false_ne_true]
      exact h.rejected_first hrejected hlen i exc
    | cons e es =>
      have hflag := (h.first e es hrejected).1
      rw [WhenAllRange.settled, WhenAllRange.reject, if_pos hflag]
      have hagain := h.rejected_again hrejected i exc data.threw
      rwa [← hflag] at hagain

theorem All.run_append (results : List V) (order : Order V E) (x : Nat × Input V E) :
    All.run results (order ++ [x]) = All.settled (All.run results order) x :=
  List.foldl_append

theorem WhenAllRange.run_append (isVoid : Bool) (results : List V) (order : Order V E)
    (x : Nat × Input V E) : WhenAllRange.run isVoid results (order ++ [x]) =
      WhenAllRange.settled (WhenAllRange.run isVoid results order) x :=
  List.foldl_append

theorem All.run_inv (results : List V) (order : Order V E)
    (hvalid : order.Valid results.length) :
    AllInv false results.length order (All.run results order) := by
  induction order using List.reverseRecOn with
  | nil => exact AllInv.nil false results
  | append_singleton order x ih =>
    rw [All.run_append]
    exact All.step_inv (ih hvalid.init) hvalid

theorem WhenAllRange.run_inv (isVoid : Bool) (results : List V) (order : Order V E)
    (hvalid : order.Valid results.length) :
    AllInv isVoid results.length order (WhenAllRange.run isVoid results order) := by
  induction order using List.reverseRecOn with
  | nil => exact AllInv.nil isVoid results
  | append_singleton order x ih =>
    rw [WhenAllRange.run_append]
    exact WhenAllRange.step_inv (ih hvalid.init) hvalid

/-- Once settled, the promise of a `whenAll` keeps its outcome. -/
theorem AllInv.settlesOnce {isVoid : Bool} {n : Nat} {run : Order V E → All.Data V E}
    (hrun : ∀ order, Order.Valid n order → AllInv isVoid n order (run order))
    {order : Order V E} (hvalid : order.Valid n) :
    SettlesOnce (fun order => (run order).outer) order := by
  rintro before later rfl o ho
  have hbefore := hrun before hvalid.init
  have hafter := hrun (before ++ later) hvalid
  dsimp only at ho ⊢
  cases hrejected : before.rejected with
  | cons e es =>
    rw [(hbefore.first e es hrejected).2] at ho
    rw [(hafter.first e (es ++ later.rejected) (by simp [hrejected])).2]
    exact ho
  | nil =>
    have hclear := (hbefore.clear hrejected).2.2.2
    rw [ho] at hclear
    have hall : before.length = n := by
      by_contra hne
      rw [if_neg fun heq => hne heq.1] at hclear
      cases hclear
    -- every input has been settled, so nothing comes later
    have hlater : later = [] := by
      have hlen := hvalid.length_le
      rw [List.length_append] at hlen
      exact List.length_eq_zero_iff.mp (by omega)
    subst hlater
    rwa [List.append_nil]

/-- In an empty `whenAll` all inputs are resolved, and the promise is Pending. -/
theorem AllInv.not_due {isVoid : Bool} {order : Order V E} {data : All.Data V E}
    (h : AllInv isVoid 0 order data) (hvalid : order.Valid 0) :
    ¬ AllDue isVoid 0 order data.outer.outcome := by
  have hnil : order = [] := List.length_eq_zero_iff.mp (Nat.le_zero.mp hvalid.length_le)
  subst hnil
  have houtcome := (h.clear rfl).2.2.2
  rw [if_neg fun heq => heq.2 rfl] at houtcome
  intro hdue
  rw [AllDue, houtcome] at hdue
  cases isVoid with
  | true => cases hdue
  | false =>
    obtain ⟨_, heq, _⟩ := hdue
    cases heq

/-! ## What the settlements throw -/

/-- Every rejection of an input of a tuple throws, but the first. -/
theorem All.run_threw (results : List V) (order : Order V E)
    (hvalid : order.Valid results.length) : (All.run results order).threw =
      List.replicate (order.rejected.length - 1) "Attempt to reject a fulfilled promise" := by
  induction order using List.reverseRecOn with
  | nil => rfl
  | append_singleton order x ih =>
    have hinv := All.run_inv results order hvalid.init
    have hlen := hvalid.length_le
    rw [List.length_append, List.length_singleton] at hlen
    have hthrew := ih hvalid.init
    rw [All.run_append]
    obtain ⟨i, v | exc⟩ := x
    · have hsame : (All.settled (All.run results order) (i, .resolved v)).threw =
          (All.run results order).threw := by
        rw [All.settled, All.resolveT]
        split
        · rfl
        · rename_i hflag
          have hrejected : Order.rejected order = [] := by
            cases hr : Order.rejected order with
            | nil => rfl
            | cons e es => exact absurd (hinv.first e es hr).1 hflag
          dsimp only
          split
          · rw [All.resolve_of_pending (by exact hinv.outcome_none hrejected hlen)]
          · rfl
      rw [hsame, hthrew]
      simp
    · rw [All.settled, All.reject]
      cases hrejected : Order.rejected order with
      | nil =>
        rw [All.reject_of_pending (by exact hinv.outcome_none hrejected hlen)]
        simp [hthrew, hrejected]
      | cons e es =>
        rw [All.reject_of_settled (by exact (hinv.first e es hrejected).2)]
        simp only [hthrew, hrejected, Order.rejected_append, Order.rejected_rejected,
          Order.rejected_nil, List.length_append, List.length_cons, List.length_nil,
          Nat.add_sub_cancel]
        exact (List.replicate_succ' ..).symm

/-- No rejection of an input of a range throws. -/
theorem WhenAllRange.run_threw (isVoid : Bool) (results : List V) (order : Order V E)
    (hvalid : order.Valid results.length) : (WhenAllRange.run isVoid results order).threw = [] := by
  induction order using List.reverseRecOn with
  | nil => rfl
  | append_singleton order x ih =>
    have hinv := WhenAllRange.run_inv isVoid results order hvalid.init
    have hlen := hvalid.length_le
    rw [List.length_append, List.length_singleton] at hlen
    have hpending : (WhenAllRange.run isVoid results order).rejected ≠ true →
        (WhenAllRange.run isVoid results order).outer.outcome = none := by
      intro hflag
      cases hr : Order.rejected order with
      | nil => exact hinv.outcome_none hr hlen
      | cons e es => exact absurd (hinv.first e es hr).1 hflag
    have hthrew := ih hvalid.init
    rw [WhenAllRange.run_append]
    obtain ⟨i, v | exc⟩ := x
    · rw [WhenAllRange.settled, WhenAllRange.continuation]
      split
      · exact hthrew
      · rename_i hflag
        dsimp only
        split
        · rw [All.resolve_of_pending (by exact hpending hflag)]
          exact hthrew
        · exact hthrew
    · rw [WhenAllRange.settled, WhenAllRange.reject]
      split
      · exact hthrew
      · rename_i hflag
        rw [All.reject_of_pending (by exact hpending hflag)]
        exact hthrew

/-! ## whenAny -/

/-- The data of a `whenAny` after the settlements of an order. -/
structure AnyInv (order : Order V E) (data : Any.Data V E) : Prop where
  done : data.done = true ↔ order ≠ []
  outcome : data.outer.outcome = anyDue order
  threw : data.threw = List.replicate (Order.rejected order.tail).length
    "Attempt to reject a fulfilled promise"

theorem anyDue_append {order : Order V E} (h : order ≠ []) (later : Order V E) :
    anyDue (order ++ later) = anyDue order := by
  obtain ⟨⟨i, v | e⟩, rest, rfl⟩ := List.exists_cons_of_ne_nil h <;> rfl

/-- One more settlement is seen by a continuation of a `whenAny`. -/
theorem Any.step_inv {order : Order V E} {data : Any.Data V E} (h : AnyInv order data)
    (x : Nat × Input V E) : AnyInv (order ++ [x]) (Any.settled data x) := by
  have hne : order ++ [x] ≠ [] := List.concat_ne_nil _ _
  obtain ⟨i, v | exc⟩ := x
  · rw [Any.settled, Any.resolveT]
    by_cases hdone : data.done
    · have horder := h.done.mp hdone
      rw [if_pos hdone]
      refine ⟨iff_of_true hdone hne, ?_, ?_⟩
      · rw [anyDue_append horder, h.outcome]
      · rw [h.threw, List.tail_append_of_ne_nil horder]
        simp
    · have horder : order = [] := not_not.mp fun hcons => hdone (h.done.mpr hcons)
      subst horder
      rw [if_neg hdone, Core.resolver_of_pending h.outcome]
      exact ⟨iff_of_true rfl hne, rfl, h.threw⟩
  · rw [Any.settled, Any.reject]
    dsimp only
    by_cases hdone : data.done
    · have horder := h.done.mp hdone
      obtain ⟨o, ho⟩ : ∃ o, anyDue order = some o := by
        obtain ⟨⟨j, v | e⟩, rest, rfl⟩ := List.exists_cons_of_ne_nil horder
        · exact ⟨_, rfl⟩
        · exact ⟨_, rfl⟩
      rw [Core.rejection_of_settled (h.outcome.trans ho)]
      refine ⟨iff_of_true rfl hne, ?_, ?_⟩
      · rw [anyDue_append horder, ← h.outcome]
      · rw [h.threw, List.tail_append_of_ne_nil horder]
        simp [List.replicate_succ']
    · have horder : order = [] := not_not.mp fun hcons => hdone (h.done.mpr hcons)
      subst horder
      rw [Core.rejection_of_pending h.outcome]
      exact ⟨iff_of_true rfl hne, rfl, h.threw⟩

theorem Any.run_inv (order : Order V E) : AnyInv order (Any.run order) := by
  induction order using List.reverseRecOn with
  | nil => exact ⟨iff_of_false Bool.false_ne_true fun h => h rfl, rfl, rfl⟩
  | append_singleton order x ih =>
    rw [Any.run, List.foldl_append]
    exact Any.step_inv ih x

theorem Any.settlesOnce (order : Order V E) :
    SettlesOnce (fun order => (Any.run order).outer) order := by
  rintro before later rfl o ho
  dsimp only at ho ⊢
  rw [(Any.run_inv before).outcome] at ho
  rw [(Any.run_inv (before ++ later)).outcome, anyDue_append, ho]
  rintro rfl
  cases ho

/-! ## The claim -/

end Pistache.Async
