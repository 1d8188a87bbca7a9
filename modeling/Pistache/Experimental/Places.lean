import Mathlib.Algebra.BigOperators.Group.Finset.Basic
import Pistache.Experimental.Hosts

/-!
# Each request is in one place

From the call of `doRequest` on, a request is with a call that is to queue or to perform it, in the
queue of its host, in the `requestsQueue` of a connection, or in its `requestEntry`, until its
promise is settled.

* `State.places` — the places of a request.
* `move_balanced`, `settled_places` — a step moves a request from place to place, or settles it.
* `accounted` — in every run, each request is in one place, or else settled, once.
-/

set_option autoImplicit false

namespace Pistache.Experimental

open Stacks

variable {T : Type} [DecidableEq T]

/-! ## Places -/

/-- The frame has the request, which is in no queue and in no entry. -/
def Frame.has (r : Request) : Frame → Nat
  | .pickConnection r' _ | .enqueue r' | .found r' _ | .performImpl _ r' | .setEntry _ r' _ =>
    if r' = r then 1 else 0
  | _ => 0

/-- The entry holds the request, and its promise is pending. -/
def awaits (outcomes : Nat → List Outcome) (r : Request) : Option RequestEntry → Nat
  | some e => if e.request = r ∧ outcomes r.id = [] then 1 else 0
  | none => 0

@[simp] theorem awaits_none (outcomes : Nat → List Outcome) (r : Request) :
    awaits outcomes r none = 0 := rfl

@[simp] theorem awaits_some (outcomes : Nat → List Outcome) (r : Request) (e : RequestEntry) :
    awaits outcomes r (some e) = if e.request = r ∧ outcomes r.id = [] then 1 else 0 := rfl

/-- The places of the request at the connection. -/
def State.waiting (s : State T) (r : Request) (c : ConnId) : Nat :=
  (s.conn c).requestsQueue.count r + awaits s.outcomes r (s.conn c).requestEntry

/-- The places of the request. -/
def State.places [Fintype T] (cfg : Config T) (s : State T) (r : Request) : Nat :=
  total (Frame.has r) s.stack + (s.queue r.host).count r +
    ∑ i ∈ Finset.range cfg.maxConnectionsPerHost, s.waiting r ⟨r.host, i⟩

/-- Each request is in one place, or settled, once. -/
structure State.Accounted [Fintype T] (cfg : Config T) (s : State T) : Prop where
  one : ∀ r ∈ s.requests, s.places cfg r + (s.outcomes r.id).length = 1
  none : ∀ r, r ∉ s.requests → s.places cfg r = 0
  ids : ∀ r ∈ s.requests, ∀ r' ∈ s.requests, r.id = r'.id → r = r'
  bound : ∀ r ∈ s.requests, r.id < s.requests.length
  fresh : ∀ id, s.requests.length ≤ id → s.outcomes id = []

/-- The connection at which a step of the frame moves requests. -/
def Frame.site : Frame → Option ConnId
  | .found _ c | .processRequests c | .setEntry c _ _ | .rejected c | .resolved c => some c
  | _ => none

theorem awaits_le (outcomes : Nat → List Outcome) (r : Request) (entry : Option RequestEntry) :
    awaits outcomes r entry ≤ unsettled outcomes entry := by
  cases entry with
  | none => exact Nat.le_refl _
  | some e =>
    simp only [awaits, unsettled]
    split <;> split <;> grind -ring -linarith

section

variable {cfg : Config T} {s s' : State T} {t : T} {fs : List Frame} {input : Input} {f : Frame}

/-- Nothing moves at other connections. -/
theorem move_waiting (hm : Move cfg s t fs input f s') (hkeep : s'.outcomes = s.outcomes)
    (r : Request) {c : ConnId} (hc : f.site ≠ some c) : s'.waiting r c = s.waiting r c := by
  unfold State.waiting
  rw [hkeep]
  cases hm with
  | wait | abort | plain | unwind => rfl
  | _ =>
    simp [Function.update_apply]
    try grind -ring -linarith [Frame.site]

omit [DecidableEq T] in
theorem plain_has {gs : List Frame} (h : Plain cfg s t input f gs) (r : Request) :
    weight (Frame.has r) gs = f.has r := by
  cases h <;> simp [Frame.has]

theorem has_request {r : Request} {g : Frame} (h : g.request = none) : g.has r = 0 := by
  cases g <;> first | rfl | cases h

/-- What leaves a place comes to another one. -/
theorem move_balanced (hstack : s.stack t = f :: fs) (hm : Move cfg s t fs input f s')
    (hkeep : s'.outcomes = s.outcomes) (hrequests : s'.requests = s.requests)
    (hqueue : ∀ host, ∀ r ∈ s.queue host, r.host = host) (hleaves : ∀ g ∈ fs, g.request = none)
    (hfree : ∀ c, 1 ≤ f.uses c → s.parked c = 0)
    (hpending : ∀ r, 1 ≤ f.has r → s.outcomes r.id = []) (r : Request) :
    (f.site = none → weight (Frame.has r) (s'.stack t) + (s'.queue r.host).count r =
      weight (Frame.has r) (s.stack t) + (s.queue r.host).count r) ∧
    ∀ c, f.site = some c →
      weight (Frame.has r) (s'.stack t) + (s'.queue r.host).count r + s'.waiting r c =
        weight (Frame.has r) (s.stack t) + (s.queue r.host).count r + s.waiting r c := by
  have hsettled : ∀ c, 1 ≤ f.uses c → awaits s.outcomes r (s.conn c).requestEntry = 0 := by
    intro c hc
    have hle := awaits_le s.outcomes r (s.conn c).requestEntry
    have hparked := hfree c hc
    unfold State.parked at hparked
    omega
  unfold State.waiting
  rw [hkeep]
  cases hm with
  | wait | abort => exact ⟨fun _ => rfl, fun c _ => rfl⟩
  | plain hp =>
    have hhas := plain_has hp r
    simp only [State.goto, Function.update_self, hstack, weight_cons, weight_append, hhas]
    exact ⟨fun _ => trivial, fun c _ => trivial⟩
  | @setEntry c r' timer =>
    have hold := hsettled c (by simp [Frame.uses])
    have hnew := hpending r' (by simp [Frame.has])
    refine ⟨fun hsite => (by cases hsite), fun c' hc => ?_⟩
    cases hc
    simp [hstack, Frame.has, hold]
    grind -ring -linarith
  | rejected | resolved =>
    rename_i c
    have hold := hsettled c (by simp [Frame.uses])
    refine ⟨fun hsite => (by cases hsite), fun c' hc => ?_⟩
    cases hc
    simp [hstack, Frame.has, hold]
  | unwind hfs =>
    have hhas := has_request (r := r) (hleaves _ (hfs ▸ List.mem_cons_self))
    have hthrowing : ∀ what, (Frame.throwing what).has r = 0 := fun _ => rfl
    refine ⟨fun _ => ?_, fun c hsite => by cases hsite⟩
    simp [hstack, hfs, hhas, hthrowing]
  | _ =>
    simp [hstack, Function.update_apply, Frame.site, Frame.has] at hkeep hrequests ⊢
    try grind -ring -linarith [Frame.has, State.continuation, weight_cons, weight_nil]

omit [DecidableEq T] in
theorem waiting_unpooled (h : s.Keyed cfg) {r : Request} {c : ConnId}
    (hc : ¬Pooled cfg r.host c) : s.waiting r c = 0 := by
  have hcount : (s.conn c).requestsQueue.count r = 0 :=
    List.count_eq_zero.mpr fun hmem => hc (h.requests c r hmem)
  rw [State.waiting, hcount, Nat.zero_add]
  cases he : (s.conn c).requestEntry with
  | none => rfl
  | some e =>
    rw [awaits_some, if_neg]
    rintro ⟨rfl, -⟩
    exact hc (h.entry c e he)

omit [DecidableEq T] in
/-- One connection changes. -/
theorem sum_waiting (h : s.Keyed cfg) (h' : s'.Keyed cfg) {r : Request} {c : ConnId}
    (hrest : ∀ c', c' ≠ c → s'.waiting r c' = s.waiting r c') :
    ∑ i ∈ Finset.range cfg.maxConnectionsPerHost, s'.waiting r ⟨r.host, i⟩ + s.waiting r c =
      ∑ i ∈ Finset.range cfg.maxConnectionsPerHost, s.waiting r ⟨r.host, i⟩ +
        s'.waiting r c := by
  by_cases hc : Pooled cfg r.host c
  · obtain ⟨host, i⟩ := c
    obtain ⟨rfl, hi⟩ := hc
    have hmem : i ∈ Finset.range cfg.maxConnectionsPerHost := Finset.mem_range.mpr hi
    have hold := Finset.add_sum_erase _ (fun i => s.waiting r ⟨r.host, i⟩) hmem
    have hnew := Finset.add_sum_erase _ (fun i => s'.waiting r ⟨r.host, i⟩) hmem
    have hothers : ∑ j ∈ (Finset.range cfg.maxConnectionsPerHost).erase i,
        s'.waiting r ⟨r.host, j⟩ =
        ∑ j ∈ (Finset.range cfg.maxConnectionsPerHost).erase i, s.waiting r ⟨r.host, j⟩ :=
      Finset.sum_congr rfl fun j hj =>
        hrest _ fun heq => Finset.ne_of_mem_erase hj (congrArg ConnId.index heq)
    omega
  · rw [waiting_unpooled h hc, waiting_unpooled h' hc]
    refine congrArg (· + 0) (Finset.sum_congr rfl fun i hi => hrest _ ?_)
    rintro rfl
    exact hc ⟨rfl, Finset.mem_range.mp hi⟩

variable [Fintype T]

/-- A step that moves requests. -/
theorem balanced_places (h : s.Keyed cfg) (h' : s'.Keyed cfg) (hstack : s.stack t = f :: fs)
    (hm : Move cfg s t fs input f s') (hkeep : s'.outcomes = s.outcomes)
    (hrequests : s'.requests = s.requests) (hleaves : ∀ g ∈ fs, g.request = none)
    (hfree : ∀ c, 1 ≤ f.uses c → s.parked c = 0)
    (hpending : ∀ r, 1 ≤ f.has r → s.outcomes r.id = []) (r : Request) :
    s'.places cfg r = s.places cfg r := by
  have hbalanced := move_balanced hstack hm hkeep hrequests h.queue hleaves hfree hpending r
  have htotal := total_update (Frame.has r) s.stack t (s'.stack t)
  rw [← hm.stack] at htotal
  unfold State.places
  cases hsite : f.site with
  | none =>
    have hsum : ∑ i ∈ Finset.range cfg.maxConnectionsPerHost, s'.waiting r ⟨r.host, i⟩ =
        ∑ i ∈ Finset.range cfg.maxConnectionsPerHost, s.waiting r ⟨r.host, i⟩ :=
      Finset.sum_congr rfl fun i _ => move_waiting hm hkeep r (by rw [hsite]; nofun)
    have hlocal := hbalanced.1 hsite
    omega
  | some c =>
    have hsum := sum_waiting (c := c) h h' fun c' hc' =>
      move_waiting hm hkeep r fun heq => hc' (Option.some.inj (heq.symm.trans hsite))
    have hlocal := hbalanced.2 c hsite
    omega

omit [DecidableEq T] in
/-- A step that settles the promise of `r`. -/
theorem settled_places (h : s.Keyed cfg) (hinv : s.Accounted cfg) {r : Request}
    {outcome : Outcome} (hr : r ∈ s.requests) (hrequests : s'.requests = s.requests)
    (houtcomes : s'.outcomes =
      Function.update s.outcomes r.id (outcome :: s.outcomes r.id))
    (hqueue : s'.queue = s.queue)
    (hconn : ∀ c, (s'.conn c).requestsQueue = (s.conn c).requestsQueue ∧
      (s'.conn c).requestEntry = (s.conn c).requestEntry)
    (htotal : ∀ r', total (Frame.has r') s'.stack ≤ total (Frame.has r') s.stack ∧
      (r' ≠ r → total (Frame.has r') s'.stack = total (Frame.has r') s.stack))
    (hplace : total (Frame.has r) s'.stack < total (Frame.has r) s.stack ∨
      ∃ c e, (s.conn c).requestEntry = some e ∧ e.request = r ∧ s.outcomes r.id = []) :
    s'.Accounted cfg := by
  have hwaiting : ∀ r' c, s'.waiting r' c ≤ s.waiting r' c := by
    intro r' c
    simp only [State.waiting, (hconn c).1, (hconn c).2, houtcomes]
    cases (s.conn c).requestEntry with
    | none => exact Nat.le_refl _
    | some e =>
      simp only [awaits_some, Function.update_apply]
      split <;> split <;> simp_all
  have hsum : ∀ r', ∑ i ∈ Finset.range cfg.maxConnectionsPerHost, s'.waiting r' ⟨r'.host, i⟩ ≤
      ∑ i ∈ Finset.range cfg.maxConnectionsPerHost, s.waiting r' ⟨r'.host, i⟩ :=
    fun r' => Finset.sum_le_sum fun i _ => hwaiting r' _
  have hle : ∀ r', s'.places cfg r' ≤ s.places cfg r' := by
    intro r'
    have hframes := (htotal r').1
    have hsums := hsum r'
    unfold State.places
    rw [hqueue]
    omega
  have hlt : s'.places cfg r < s.places cfg r := by
    unfold State.places
    rw [hqueue]
    rcases hplace with hframe | ⟨c, e, he, rfl, hpending⟩
    · have hsums := hsum r
      omega
    · have hframes := (htotal e.request).1
      obtain ⟨hhost, hindex⟩ := h.entry c e he
      have hstrict : ∑ i ∈ Finset.range cfg.maxConnectionsPerHost,
          s'.waiting e.request ⟨e.request.host, i⟩ <
          ∑ i ∈ Finset.range cfg.maxConnectionsPerHost, s.waiting e.request ⟨e.request.host, i⟩ := by
        refine Finset.sum_lt_sum (fun i _ => hwaiting _ _)
          ⟨c.index, Finset.mem_range.mpr hindex, ?_⟩
        have hc : (⟨e.request.host, c.index⟩ : ConnId) = c := by rw [hhost]
        rw [hc]
        simp [State.waiting, hconn c, he, houtcomes, hpending]
      omega
  have hone := hinv.one r hr
  refine ⟨fun r' hr' => ?_, fun r' hr' => ?_, ?_, ?_, fun id hid => ?_⟩
  · rw [hrequests] at hr'
    rw [houtcomes]
    by_cases hsame : r' = r
    · subst hsame
      simp only [Function.update_self, List.length_cons]
      omega
    · have hid : r'.id ≠ r.id := fun heq => hsame (hinv.ids r' hr' r hr heq)
      have hsums : ∀ c, s'.waiting r' c = s.waiting r' c := by
        intro c
        simp only [State.waiting, (hconn c).1, (hconn c).2, houtcomes]
        cases (s.conn c).requestEntry with
        | none => rfl
        | some e => simp only [awaits_some, Function.update_of_ne hid]
      have hold := hinv.one r' hr'
      rw [Function.update_of_ne hid, ← hold]
      simp only [State.places, hqueue, hsums, (htotal r').2 hsame]
  · have hzero := hinv.none r' (hrequests ▸ hr')
    exact Nat.le_zero.mp (hzero ▸ hle r')
  · rw [hrequests]
    exact hinv.ids
  · rw [hrequests]
    exact hinv.bound
  · rw [hrequests] at hid
    have hne : id ≠ r.id := by
      have hbound := hinv.bound r hr
      omega
    rw [houtcomes, Function.update_of_ne hne]
    exact hinv.fresh id hid

omit [DecidableEq T] in
theorem State.Accounted.pending (h : s.Accounted cfg) {t : T} {f : Frame} (hf : f ∈ s.stack t)
    {r : Request} (hr : 1 ≤ f.has r) : r ∈ s.requests ∧ s.outcomes r.id = [] := by
  have hplaces : 1 ≤ s.places cfg r := by
    have hframe := le_weight (w := Frame.has r) hf
    have htotal := weight_le_total (w := Frame.has r) s.stack t
    unfold State.places
    omega
  have hmem : r ∈ s.requests := by
    by_contra hnot
    rw [h.none r hnot] at hplaces
    omega
  have hone := h.one r hmem
  exact ⟨hmem, List.length_eq_zero_iff.mp (by omega)⟩

omit [DecidableEq T] in
theorem State.Accounted.entry (h : s.Accounted cfg) (hkeyed : s.Keyed cfg) {c : ConnId}
    {e : RequestEntry} (he : (s.conn c).requestEntry = some e)
    (hpending : s.outcomes e.request.id = []) : e.request ∈ s.requests := by
  by_contra hnot
  have hnone := h.none _ hnot
  obtain ⟨hhost, hindex⟩ := hkeyed.entry c e he
  have hwaiting : 1 ≤ s.waiting e.request ⟨e.request.host, c.index⟩ := by
    have hc : (⟨e.request.host, c.index⟩ : ConnId) = c := by rw [hhost]
    simp [hc, State.waiting, he, hpending]
  have hsum := Finset.single_le_sum
    (f := fun i => s.waiting e.request ⟨e.request.host, i⟩) (fun _ _ => Nat.zero_le _)
    (Finset.mem_range.mpr hindex)
  unfold State.places at hnone
  omega

omit [DecidableEq T] in
/-- A request is with one connection. -/
theorem State.Accounted.one_entry (h : s.Accounted cfg) (hkeyed : s.Keyed cfg) {c c' : ConnId}
    {e e' : RequestEntry} (he : (s.conn c).requestEntry = some e)
    (he' : (s.conn c').requestEntry = some e') (hpending : s.outcomes e.request.id = [])
    (hid : e'.request.id = e.request.id) : c' = c := by
  have hmem := h.entry hkeyed he hpending
  have hrequest : e'.request = e.request :=
    h.ids _ (h.entry hkeyed he' (hid ▸ hpending)) _ hmem hid
  obtain ⟨host, i⟩ := c
  obtain ⟨host', i'⟩ := c'
  obtain ⟨rfl, hi⟩ := hkeyed.entry _ e he
  obtain ⟨hhost, hi'⟩ := hkeyed.entry _ e' he'
  rw [hrequest] at hhost
  simp only at hhost hi hi'
  subst hhost
  by_contra hne
  have hindex : i ≠ i' := fun heq => hne (heq ▸ rfl)
  have hone := h.one _ hmem
  have hwaiting : 1 ≤ s.waiting e.request ⟨e.request.host, i⟩ := by
    simp [State.waiting, he, hpending]
  have hwaiting' : 1 ≤ s.waiting e.request ⟨e.request.host, i'⟩ := by
    simp [State.waiting, he', hrequest, hpending]
  have htwo : ∑ j ∈ {i, i'}, s.waiting e.request ⟨e.request.host, j⟩ ≤
      ∑ j ∈ Finset.range cfg.maxConnectionsPerHost, s.waiting e.request ⟨e.request.host, j⟩ :=
    Finset.sum_le_sum_of_subset fun j hj => by
      rcases Finset.mem_insert.mp hj with rfl | hj
      · exact Finset.mem_range.mpr hi
      · exact Finset.mem_range.mpr (Finset.mem_singleton.mp hj ▸ hi')
  rw [Finset.sum_pair hindex] at htwo
  unfold State.places at hone
  omega

omit [DecidableEq T] in
/-- It is not with a frame and a connection. -/
theorem State.Accounted.not_both (h : s.Accounted cfg) (hkeyed : s.Keyed cfg) {t : T} {f : Frame}
    (hf : f ∈ s.stack t) {r : Request} (hr : 1 ≤ f.has r) {c : ConnId} {e : RequestEntry}
    (he : (s.conn c).requestEntry = some e) (hid : e.request.id = r.id) : False := by
  obtain ⟨hmem, hpending⟩ := h.pending hf hr
  obtain rfl : e.request = r := h.ids _ (h.entry hkeyed he (hid ▸ hpending)) _ hmem hid
  have hone := h.one _ hmem
  obtain ⟨hhost, hindex⟩ := hkeyed.entry c e he
  have hframe := le_weight (w := Frame.has e.request) hf
  have htotal := weight_le_total (w := Frame.has e.request) s.stack t
  have hwaiting : 1 ≤ s.waiting e.request ⟨e.request.host, c.index⟩ := by
    have hc : (⟨e.request.host, c.index⟩ : ConnId) = c := by rw [hhost]
    simp [hc, State.waiting, he, hpending]
  have hsum := Finset.single_le_sum
    (f := fun i => s.waiting e.request ⟨e.request.host, i⟩) (fun _ _ => Nat.zero_le _)
    (Finset.mem_range.mpr hindex)
  unfold State.places at hone
  omega

/-- A call of `doRequest`. -/
theorem called_places (h : s.Accounted cfg) (resource : Bytes) (timeout : Int) (size : Nat) :
    (s.call t resource timeout size (s.stack t)).Accounted cfg := by
  have hplaces : ∀ r, (s.call t resource timeout size (s.stack t)).places cfg r =
      s.places cfg r + if ⟨s.requests.length, resource, timeout, size⟩ = r then 1 else 0 := by
    intro r
    have htotal := total_update (Frame.has r) s.stack t
      (.pickConnection ⟨s.requests.length, resource, timeout, size⟩ 0 ::
        .doRequest ⟨s.requests.length, resource, timeout, size⟩ :: s.stack t)
    simp only [weight_cons, Frame.has] at htotal
    simp only [State.places, State.waiting, State.call, State.goto]
    omega
  have hnew : ∀ r ∈ s.requests, (⟨s.requests.length, resource, timeout, size⟩ : Request) ≠ r := by
    rintro r hr rfl
    exact Nat.lt_irrefl _ (h.bound _ hr)
  have hrequests : ∀ r, r ∈ (s.call t resource timeout size (s.stack t)).requests ↔
      r ∈ s.requests ∨ r = ⟨s.requests.length, resource, timeout, size⟩ := by
    simp
  have hlength : (s.call t resource timeout size (s.stack t)).requests.length =
      s.requests.length + 1 := by simp
  refine ⟨fun r hr => ?_, fun r hr => ?_, fun r hr r' hr' hid => ?_, fun r hr => ?_,
    fun id hid => ?_⟩
  · rw [hplaces]
    rcases (hrequests r).mp hr with hold | rfl
    · rw [if_neg (hnew r hold)]
      exact h.one r hold
    · have hfresh := h.fresh s.requests.length (Nat.le_refl _)
      rw [if_pos rfl, h.none _ fun hmem => hnew _ hmem rfl]
      simp [hfresh]
  · rw [hrequests] at hr
    rw [hplaces, if_neg fun heq => hr (.inr heq.symm), h.none r fun hmem => hr (.inl hmem)]
  · rcases (hrequests r).mp hr with hold | rfl <;> rcases (hrequests r').mp hr' with hold' | rfl
    · exact h.ids r hold r' hold' hid
    · exact absurd (h.bound r hold) (by simp [hid])
    · exact absurd (h.bound r' hold') (by simp [← hid])
    · rfl
  · rw [hlength]
    rcases (hrequests r).mp hr with hold | rfl
    · exact Nat.lt_succ_of_lt (h.bound r hold)
    · exact Nat.lt_succ_self _
  · rw [hlength] at hid
    exact h.fresh id (Nat.le_of_succ_le hid)

omit [DecidableEq T] in
theorem State.Accounted.of_places (h : s.Accounted cfg) (hrequests : s'.requests = s.requests)
    (hkeep : s'.outcomes = s.outcomes) (hplaces : ∀ r, s'.places cfg r = s.places cfg r) :
    s'.Accounted cfg := by
  refine ⟨?_, ?_, ?_, ?_, ?_⟩
  · simpa [hrequests, hkeep, hplaces] using h.one
  · simpa [hrequests, hplaces] using h.none
  · simpa [hrequests] using h.ids
  · simpa [hrequests] using h.bound
  · simpa [hrequests, hkeep] using h.fresh

/-- A move. -/
theorem move_accounted (h : s.Accounted cfg) (hkeyed : s.Keyed cfg) (husers : ∀ c, s.users c ≤ s.mark c)
    (hleaves : s.Leaves) (hstack : s.stack t = f :: fs) (hm : Move cfg s t fs input f s') :
    s'.Accounted cfg := by
  have hf : f ∈ s.stack t := hstack ▸ List.mem_cons_self
  have hfree : ∀ c, 1 ≤ f.uses c → s.parked c = 0 :=
    fun c hc => (users_top (husers c) hstack hc).2.2.1
  have htail : ∀ g ∈ fs, g.request = none := fun g hg => hleaves t g (by rwa [hstack])
  have hbalanced : s'.outcomes = s.outcomes → s'.requests = s.requests → s'.Accounted cfg :=
    fun hkeep hrequests => h.of_places hrequests hkeep
      (balanced_places hkeyed (move_keyed hstack hm hkeyed) hstack hm hkeep hrequests htail hfree
        fun r hr => (h.pending hf hr).2)
  have htotal := fun r => total_update (Frame.has r) s.stack t (s'.stack t)
  rw [← hm.stack, hstack] at htotal
  cases hm with
  | call hinput =>
    have := called_places (t := t) h
    rw [hstack] at this
    exact this _ _ _
  | @full r hlock =>
    obtain ⟨hr, -⟩ := h.pending hf (r := r) (by simp [Frame.has])
    refine settled_places hkeyed h hr rfl rfl rfl (fun c => ⟨rfl, rfl⟩) (fun r' => ?_) (.inl ?_)
    · have hsame := htotal r'
      simp only [weight_cons, Frame.has] at hsame
      simp only [State.goto, State.settle, Function.update_self] at hsame ⊢
      grind -ring -linarith
    · have hsame := htotal r
      simp only [weight_cons, Frame.has, if_true] at hsame
      simp only [State.goto, State.settle, Function.update_self] at hsame ⊢
      omega
  | @reject c error e he hpending | @timeOut c e he htimer hpending | @resolve c e hinput he hpending =>
    refine settled_places hkeyed h (h.entry hkeyed he hpending) rfl rfl rfl (fun c' => ?_)
      (fun r' => ?_) (.inr ⟨c, e, he, rfl, hpending⟩)
    · simp [Function.update_apply]
      grind -ring -linarith
    · have hsame := htotal r'
      simp only [State.goto, State.settle, State.continuation, Function.update_self] at hsame ⊢
      split at hsame <;> simp [Frame.has] at hsame ⊢ <;> grind -ring -linarith
  | _ => exact hbalanced rfl rfl

theorem accounted_step {event : Event T} (h : s.Accounted cfg) (hkeyed : s.Keyed cfg)
    (husers : ∀ c, s.users c ≤ s.mark c) (hleaves : s.Leaves) (hs : Happens cfg s event s') :
    s'.Accounted cfg := by
  cases hs with
  | nothing => exact h
  | tick => exact h.of_places rfl rfl fun r => rfl
  | frame hstack hm => exact move_accounted h hkeyed husers hleaves hstack hm
  | @poll t events hstack =>
    refine h.of_places rfl rfl fun r => ?_
    have htotal := total_update (Frame.has r) s.stack t [.onReady events]
    have hsame : ∀ c, (s.reported events c).requestsQueue = (s.conn c).requestsQueue ∧
        (s.reported events c).requestEntry = (s.conn c).requestEntry := by
      intro c
      unfold State.reported
      split <;> exact ⟨rfl, rfl⟩
    simp only [hstack, weight_cons, weight_nil, Frame.has] at htotal
    simp only [State.places, State.waiting, State.goto, State.setLock, (hsame _).1, (hsame _).2]
    omega
  | @call t resource timeout size hstack =>
    have := called_places (t := t) h resource timeout size
    rwa [hstack] at this

end

/-- What holds in every run. -/
structure State.Sound [Fintype T] (cfg : Config T) (s : State T) : Prop where
  users : ∀ c, s.users c ≤ s.mark c
  leaves : s.Leaves
  keyed : s.Keyed cfg
  accounted : s.Accounted cfg

omit [DecidableEq T] in
theorem sound_start [Fintype T] (cfg : Config T) : (start : State T).Sound cfg := by
  refine ⟨fun c => ?_, by simp [State.Leaves, start], keyed_start cfg,
    by simp [start], fun r _ => ?_, by simp [start], by simp [start], by simp [start]⟩
  · simp [State.users, State.parked, State.mark, start, unsettled, total_empty]
  · simp [State.places, State.waiting, start, total_empty]

theorem sound_step [Fintype T] {cfg : Config T} {s s' : State T} {event : Event T}
    (h : s.Sound cfg) (hs : Happens cfg s event s') : s'.Sound cfg :=
  ⟨fun c => users_step h.users hs c, leaves_step h.leaves hs, keyed_step h.keyed hs,
    accounted_step h.accounted h.keyed h.users h.leaves hs⟩

theorem sound_run [Fintype T] (cfg : Config T) (events : List (Event T)) :
    (run cfg start events).Sound cfg :=
  run_inv (sound_start cfg) (fun _ _ _ h hs => sound_step h hs) events

/-- **Each request is in one place**, or settled once, in every run. -/
theorem accounted [Fintype T] (cfg : Config T) (events : List (Event T)) :
    (run cfg start events).Accounted cfg :=
  (sound_run cfg events).accounted

end Pistache.Experimental
