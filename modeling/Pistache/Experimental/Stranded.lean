import Pistache.Experimental.Released
import Pistache.Experimental.Threads

/-!
# No request is left in a queue

A request that has found no connection is queued, with the queue as its only place: somebody has
to come and look.  Behind each request that ends, `Client::processRequestQueue` does, for every
connection of every host that is free.

* `move_covered` — a step keeps a host with a queue covered.
* `not_stranded` — in orderly runs, when no call is under way and a queue is not empty, each
  connection of its host is used, by a request whose promise is pending.
-/

set_option autoImplicit false

namespace Pistache.Experimental

open Stacks

variable {T : Type} [DecidableEq T]

/-! ## Coverage -/

section

variable {cfg : Config T} {s s' : State T} {t : T} {fs : List Frame} {input : Input} {f : Frame}

/-- Where a connection is released. -/
theorem move_free (hm : Move cfg s t fs input f s') {c : ConnId} (hused : (s.conn c).used)
    (hfree : (s'.conn c).used = false) :
    (f = .onDone c ∧ s'.stack t = .processRequestQueue :: fs) ∨
      ((∃ hosts, f = .dequeue c hosts) ∧ s.queue c.host = [] ∧ s'.queue = s.queue) := by
  cases hm with
  | wait | abort | plain | unwind =>
    rw [show (s.conn c).used = false from hfree] at hused
    cases hused
  | _ =>
    simp [Function.update_apply] at hfree ⊢
    grind -ring -linarith

/-- What a step of the frame on top keeps below it. -/
theorem move_below [Fintype T] {host : Bytes} {i : Nat} (hstack : s.stack t = f :: fs)
    (horderly : f.orderly cfg s input fs) (hover : Tower Over (f :: fs))
    (hm : Move cfg s t fs input f s') (h : fs.any (Frame.covers host i)) :
    (s'.stack t).any (Frame.covers host i) := by
  cases hm with
  | wait | abort =>
    simp only [State.abort, hstack, List.any_cons, h, Bool.or_true]
  | thrown hfs =>
    subst hfs
    cases h
  | caught hfs =>
    subst hfs
    simpa [Frame.covers] using h
  | @catch_ what g c gs hfs | @unwind what g gs hfs =>
    subst hfs
    have hleaf := hover.1.leaf g List.mem_cons_self
    have hresets := hover.1.resets g gs rfl
    have hg : g.covers host i = false := by
      cases g <;> simp_all [Frame.covers, Frame.orderly, Frame.leaf, Frame.resets]
    rw [List.any_cons, hg, Bool.false_or] at h
    simp only [State.goto, Function.update_self, List.any_cons, h, Bool.or_true]
  | connect =>
    simp only [State.goto, Function.update_self, List.any_cons]
    split <;> simp [h]
  | _ => simp [h]

theorem covers_pick {host : Bytes} {hosts : List Bytes} (h : host ∈ hosts) (i : Nat) :
    (Frame.pick hosts 0).covers host i := by
  cases hosts with
  | nil => cases h
  | cons host' rest =>
    rcases List.mem_cons.mp h with rfl | h
    · simp [Frame.covers]
    · simp [Frame.covers, h]

/-- What a step makes of a frame on top that leads to a connection. -/
theorem move_top {host : Bytes} {i : Nat} (hi : i < cfg.maxConnectionsPerHost)
    (hstack : s.stack t = f :: fs) (hover : Tower Over (f :: fs))
    (hhosts : host ∈ s.hosts) (hqueue : s'.queue host ≠ [])
    (hm : Move cfg s t fs input f s') (h : f.covers host i) :
    (s'.conn ⟨host, i⟩).used ∨ (s'.stack t).any (Frame.covers host i) := by
  cases hm with
  | wait | abort =>
    right
    simp only [State.abort, hstack, List.any_cons, h, Bool.true_or]
  | plain hp =>
    cases hp with
    | @queues_next host' hosts i' hlt hused =>
      simp only [Frame.covers, Bool.decide_or, Bool.decide_and, Bool.or_eq_true,
        Bool.and_eq_true, decide_eq_true_eq] at h
      rcases h with ⟨rfl, hle⟩ | hmem
      · rcases Nat.eq_or_lt_of_le hle with rfl | hlt
        · exact .inl hused
        · right
          simp [Frame.covers, Nat.succ_le_of_lt hlt]
      · right
        simp [Frame.covers, hmem]
    | @queues_host host' hosts i' hle =>
      simp only [Frame.covers, Bool.decide_or, Bool.decide_and, Bool.or_eq_true,
        Bool.and_eq_true, decide_eq_true_eq] at h
      rcases h with ⟨-, hle'⟩ | hmem
      · omega
      · right
        simp [covers_pick hmem]
    | _ => cases h
  | rejected | resolved | onDone =>
    right
    simp [Frame.covers]
  | lock hlocked hperm =>
    right
    simp [covers_pick (hperm.mem_iff.mpr hhosts)]
  | unlock => cases h
  | @queues_take host' hosts i' hlt hused =>
    right
    simp only [Frame.covers, Bool.decide_or, Bool.decide_and, Bool.or_eq_true,
      Bool.and_eq_true, decide_eq_true_eq] at h
    rcases h with ⟨rfl, -⟩ | hmem
    · simp [Frame.covers]
    · simp [Frame.covers, hmem]
  | @dequeue_none c hosts hempty =>
    -- the queue that has been found empty is that of another host
    right
    have hhead := hover.1.host c hosts rfl
    have hmem : host ∈ hosts := by simpa [Frame.covers] using h
    cases hosts with
    | nil => cases hmem
    | cons host' rest =>
      cases hhead
      rcases List.mem_cons.mp hmem with rfl | hmem
      · exact absurd hempty hqueue
      · simp [covers_pick hmem]
  | @dequeue c hosts =>
    right
    have hmem : host ∈ hosts := by simpa [Frame.covers] using h
    simp [covers_pick hmem]
  | reject_throws hf =>
    rcases hf with ⟨error, rfl⟩ | rfl <;> cases h
  | _ => cases h

/-- **A step keeps a host covered** that has a queue. -/
theorem move_covered [Fintype T] {host : Bytes} {i : Nat} (hi : i < cfg.maxConnectionsPerHost)
    (hstack : s.stack t = f :: fs) (horderly : f.orderly cfg s input fs)
    (hover : Tower Over (f :: fs)) (hhosts : f.covers host i → host ∈ s.hosts)
    (hqueue : s'.queue host ≠ []) (hm : Move cfg s t fs input f s') (h : s.Covered host i) :
    s'.Covered host i := by
  rcases h with hused | ⟨u, hu⟩
  · cases hused' : (s'.conn ⟨host, i⟩).used with
    | true => exact .inl hused'
    | false =>
      rcases move_free hm hused hused' with ⟨-, hstack'⟩ | ⟨-, hempty, hkeep⟩
      · exact .inr ⟨t, by simp [hstack', Frame.covers]⟩
      · exact absurd (hkeep ▸ hempty) hqueue
  · by_cases hut : u = t
    · subst hut
      rw [hstack, List.any_cons, Bool.or_eq_true] at hu
      rcases hu with htop | hbelow
      · rcases move_top hi hstack hover (hhosts htop) hqueue hm htop with hused | hany
        · exact .inl hused
        · exact .inr ⟨u, hany⟩
      · exact .inr ⟨u, move_below hstack horderly hover hm hbelow⟩
    · refine .inr ⟨u, ?_⟩
      rwa [hm.stack, Function.update_of_ne hut]

end

/-! ## Runs -/

/-- The hosts of the queues that are not empty are known and covered. -/
structure State.Attended (cfg : Config T) (s : State T) : Prop where
  known : ∀ host, s.queue host ≠ [] → host ∈ s.hosts
  covered : ∀ host, s.queue host ≠ [] → ∀ i < cfg.maxConnectionsPerHost, s.Covered host i

/-- No call is under way. -/
def State.AtRest (s : State T) : Prop := ∀ t, s.stack t = []

instance [Fintype T] (s : State T) : Decidable s.AtRest := inferInstanceAs (Decidable (∀ _, _))

/-- The request is with the connection. -/
def State.Serves (s : State T) (c : ConnId) (r : Request) : Prop :=
  r ∈ (s.conn c).requestsQueue ∨ ∃ timer, (s.conn c).requestEntry = some ⟨r, timer⟩

section

variable {cfg : Config T} {s s' : State T} {t : T} {fs : List Frame} {input : Input} {f : Frame}

theorem move_known (hm : Move cfg s t fs input f s') {host : Bytes}
    (h : s.queue host ≠ [] → host ∈ s.hosts) (hqueue : s'.queue host ≠ []) :
    host ∈ s'.hosts := by
  cases hm with
  | wait | abort | plain | unwind => exact h hqueue
  | _ =>
    simp [Function.update_apply] at hqueue ⊢
    grind -ring -linarith

theorem attended_step [Fintype T] {event : Event T} (h : s.Attended cfg) (hstacked : s.Stacked)
    (horderly : orderly cfg s event) (hs : Happens cfg s event s') : s'.Attended cfg := by
  cases hs with
  | nothing => exact h
  | tick => exact ⟨h.known, h.covered⟩
  | @frame u input f fs _ hstack hm =>
    have hordered : f.orderly cfg s input fs := by simpa only [orderly, hstack] using horderly
    refine ⟨fun host => move_known hm (h.known host), fun host hqueue i hi => ?_⟩
    by_cases hold : s.queue host = []
    · obtain ⟨r, rfl, rfl, hlock⟩ := move_queued hm hold hqueue
      have hcovered : ∀ i < cfg.maxConnectionsPerHost, s.Covered r.host i := by
        simpa [Frame.orderly, hlock] using hordered
      exact move_covered hi hstack hordered (hstack ▸ hstacked u) (fun hcovers => by cases hcovers)
        hqueue hm (hcovered i hi)
    · exact move_covered hi hstack hordered (hstack ▸ hstacked u) (fun _ => h.known host hold)
        hqueue hm (h.covered host hold i hi)
  | @poll t events hstack =>
    refine ⟨h.known, fun host hqueue i hi => ?_⟩
    have hused : (s.reported events ⟨host, i⟩).used = (s.conn ⟨host, i⟩).used := by
      unfold State.reported
      split <;> rfl
    rcases h.covered host hqueue i hi with hcovered | ⟨u, hu⟩
    · exact .inl (hused.trans hcovered)
    · have hut : u ≠ t := by
        rintro rfl
        rw [hstack] at hu
        cases hu
      exact .inr ⟨u, by simpa [hut] using hu⟩
  | @call t resource timeout size hstack =>
    refine ⟨h.known, fun host hqueue i hi => ?_⟩
    rcases h.covered host hqueue i hi with hcovered | ⟨u, hu⟩
    · exact .inl hcovered
    · have hut : u ≠ t := by
        rintro rfl
        rw [hstack] at hu
        cases hu
      exact .inr ⟨u, by simpa [hut] using hu⟩

omit [DecidableEq T] in
/-- A request with a connection, and pending. -/
theorem State.Accounted.parked [Fintype T] (h : s.Accounted cfg) (hkeyed : s.Keyed cfg)
    {c : ConnId} (hparked : 1 ≤ s.parked c) :
    ∃ r ∈ s.requests, s.Serves c r ∧ s.outcomes r.id = [] := by
  cases hqueue : (s.conn c).requestsQueue with
  | nil =>
    simp only [State.parked, hqueue, List.length_nil, Nat.zero_add] at hparked
    cases hentry : (s.conn c).requestEntry with
    | none => simp [hentry, unsettled] at hparked
    | some e =>
      have hpending : s.outcomes e.request.id = [] := by
        by_contra hnot
        simp [hentry, unsettled, hnot] at hparked
      exact ⟨e.request, h.entry hkeyed hentry hpending, .inr ⟨e.timer, hentry⟩, hpending⟩
  | cons r queue =>
    have hmem : r ∈ (s.conn c).requestsQueue := hqueue ▸ List.mem_cons_self
    obtain ⟨hhost, hindex⟩ := hkeyed.requests c r hmem
    have hwaiting : 1 ≤ s.waiting r ⟨r.host, c.index⟩ := by
      have hc : (⟨r.host, c.index⟩ : ConnId) = c := by rw [hhost]
      have hcount := List.one_le_count_iff.mpr hmem
      rw [hc]
      unfold State.waiting
      omega
    have hsum := Finset.single_le_sum (f := fun i => s.waiting r ⟨r.host, i⟩)
      (fun _ _ => Nat.zero_le _) (Finset.mem_range.mpr hindex)
    have hplaces : 1 ≤ s.places cfg r := by
      unfold State.places
      omega
    have hrequest : r ∈ s.requests := by
      by_contra hnot
      rw [h.none r hnot] at hplaces
      omega
    have hone := h.one r hrequest
    exact ⟨r, hrequest, .inl hmem, List.length_eq_zero_iff.mp (by omega)⟩

end

/-- What orderly runs keep. -/
structure State.Ordered [Fintype T] (cfg : Config T) (s : State T) : Prop where
  sound : s.Sound cfg
  stacked : s.Stacked
  marked : s.Marked
  attended : s.Attended cfg

omit [DecidableEq T] in
theorem ordered_start [Fintype T] (cfg : Config T) : (start : State T).Ordered cfg :=
  ⟨sound_start cfg, fun t => trivial, fun c => by simp [State.mark, start],
    by simp [start], by simp [start]⟩

theorem ordered_step [Fintype T] {cfg : Config T} {s s' : State T} {event : Event T}
    (h : s.Ordered cfg) (horderly : orderly cfg s event) (hs : Happens cfg s event s') :
    s'.Ordered cfg :=
  ⟨sound_step h.sound hs, stacked_step h.stacked horderly hs,
    marked_step h.marked h.sound h.stacked horderly hs,
    attended_step h.attended h.stacked horderly hs⟩

theorem ordered_run [Fintype T] (cfg : Config T) {events : List (Event T)}
    (h : Machine.Always (next cfg) (fun s event => orderly cfg s event) start events) :
    (run cfg start events).Ordered cfg :=
  always_inv (P := fun s event => orderly cfg s event) (I := State.Ordered cfg)
    (ordered_start cfg) (fun _ _ _ h horderly hs => ordered_step h horderly hs) h

/-- **No stranded request**: in orderly runs, when no call is under way and a queue is not empty,
each connection of its host is used, by a request whose promise is pending. -/
theorem not_stranded [Fintype T] (cfg : Config T) (events : List (Event T))
    (h : Machine.Always (next cfg) (fun s event => orderly cfg s event) start events)
    (hquiet : (run cfg start events).AtRest) {host : Bytes}
    (hqueue : (run cfg start events).queue host ≠ []) {i : Nat}
    (hi : i < cfg.maxConnectionsPerHost) :
    ((run cfg start events).conn ⟨host, i⟩).used ∧
      ∃ r ∈ (run cfg start events).requests, (run cfg start events).Serves ⟨host, i⟩ r ∧
        (run cfg start events).outcomes r.id = [] := by
  have hordered := ordered_run cfg h
  have hused : ((run cfg start events).conn ⟨host, i⟩).used := by
    rcases hordered.attended.covered host hqueue i hi with hused | ⟨t, ht⟩
    · exact hused
    · rw [hquiet t] at ht
      cases ht
  have hmarked := hordered.marked ⟨host, i⟩
  rw [State.mark, if_pos hused, State.users, total_empty hquiet, Nat.zero_add] at hmarked
  exact ⟨hused, hordered.sound.accounted.parked hordered.sound.keyed hmarked⟩

/-- A call that finds the one connection used. -/
def queued : List (Event Bool) :=
  connecting (lit "h") 0 ++ performing ++ queueing (lit "h") 0

theorem not_stranded_queued :
    ((run small start queued).conn ⟨lit "h", 0⟩).used ∧
      ∃ r ∈ (run small start queued).requests, (run small start queued).Serves ⟨lit "h", 0⟩ r ∧
        (run small start queued).outcomes r.id = [] :=
  not_stranded small queued (by decide) (by decide) (by decide)
    (by decide)

/-- The connection is released between the look at the pool and the queue. -/
def releasedBetween : List (Event Bool) :=
  connecting (lit "h") 0 ++ performing ++ (queueing (lit "h") 0).take 3 ++
    responding ++ (queueing (lit "h") 0).drop 3

set_option maxRecDepth 8000 in
/-- The request stays in the queue, with a connection that is free. -/
theorem stranded :
    (run small start releasedBetween).AtRest ∧
      (run small start releasedBetween).queue (lit "h") ≠ [] ∧
      ((run small start releasedBetween).conn first).used = false := by
  decide

end Pistache.Experimental
