import Pistache.Eventmeth.Orderly

/-!
# Changes of the interest sets

What each change of the shared state does to the events and the sets, and to what the other
threads rely on.

* `Sorted.attach`, `Sorted.setEmee`, `Sorted.alloc`, `Sorted.delete` — the changes that do anything
  to them.
* `sets` — what the threads rely on.
-/

set_option autoImplicit false

namespace Pistache.Eventmeth.EpollEquiv

open Locked

variable {M T : Type} [DecidableEq M] {S : Setting M} {G : T → Place M} {s s' : State M}
variable {t u : T} {m m' : M} {fd : Fd} {w : World T (Mutex M) (Call M) (State M)}

/-! ## The state -/

namespace State

omit [DecidableEq M] in
@[simp] theorem setEvent_emee (s : State M) (fd : Fd) (e : EmEvent M) :
    (s.setEvent fd e).emee = s.emee := rfl

omit [DecidableEq M] in
@[simp] theorem setEvent_next (s : State M) (fd : Fd) (e : EmEvent M) :
    (s.setEvent fd e).next = s.next := rfl

omit [DecidableEq M] in
@[simp] theorem setEvent_self (s : State M) (fd : Fd) (e : EmEvent M) :
    (s.setEvent fd e).event fd = e := by simp [setEvent]

omit [DecidableEq M] in
theorem setEvent_ne (s : State M) {fd fd' : Fd} (e : EmEvent M) (h : fd' ≠ fd) :
    (s.setEvent fd e).event fd' = s.event fd' := by simp [setEvent, h]

@[simp] theorem setEmee_event (s : State M) (m : M) (e : Emee) : (s.setEmee m e).event = s.event :=
  rfl

@[simp] theorem setEmee_next (s : State M) (m : M) (e : Emee) : (s.setEmee m e).next = s.next := rfl

@[simp] theorem setEmee_self (s : State M) (m : M) (e : Emee) : (s.setEmee m e).emee m = e := by
  simp [setEmee]

theorem setEmee_ne (s : State M) {m m' : M} (e : Emee) (h : m' ≠ m) :
    (s.setEmee m e).emee m' = s.emee m' := by simp [setEmee, h]

end State

/-! ## Two threads -/

omit [DecidableEq M] in
/-- What a thread has is no other's own. -/
theorem Sorted.not_owns (hT : Traced overlaps (fun t => (G t).trace) w) (h : Sorted S G s)
    (hut : u ≠ t) (hhas : (G t).Has fd) : ¬(G u).Owns fd := by
  rintro (hclose | htimer)
  · rcases hhas with ⟨f, hf, hfd⟩ | htimer
    · exact hT.apart u t hut _ hclose f hf (.inr (.inl ⟨fd, rfl, hfd⟩))
    · have hno := (h.used u _ hclose fd rfl).1
      rw [(h.timer t fd htimer).1] at hno
      cases hno
  · rcases hhas with ⟨f, hf, hfd⟩ | htimer'
    · have hno := (h.used t f hf fd hfd).1
      rw [(h.timer u fd htimer).1] at hno
      cases hno
    · exact hut (h.timers u t fd htimer htimer')

omit [DecidableEq M] in
/-- Two threads name one `EventMethEpollEquiv` for an event. -/
theorem Sorted.names_eq (hT : Traced overlaps (fun t => (G t).trace) w) (h : Sorted S G s)
    (hut : u ≠ t) (ht : (G t).Names m fd) (hu : (G u).Names m' fd) : m' = m := by
  rcases hu with ⟨f', hf', hfd'⟩ | htimer
  · rcases ht with ⟨f, hf, hfd⟩ | htimer
    · by_contra hne
      exact hT.apart u t hut f' hf' f hf (.inr (.inr (.inr ⟨_, hfd', _, hfd, rfl, hne⟩)))
    · exact absurd (.inr htimer) (h.not_owns hT (Ne.symm hut)
        (.inl ⟨f', hf', Call.event_of_names hfd'⟩))
  · exact absurd (.inr htimer) (h.not_owns hT hut ht.has)

omit [DecidableEq M] in
/-- The `EventMethEpollEquiv` of an event is the one that another thread names for it, if a call
follows. -/
theorem Sorted.follows_eq (hT : Traced overlaps (fun t => (G t).trace) w) (h : Sorted S G s)
    (hut : u ≠ t) (ht : (G t).Names m fd) (hu : (G u).Follows fd) (hatt : Attached m' fd s) :
    m' = m := by
  rcases ht with ⟨f, hf, hfd⟩ | htimer
  · obtain ⟨f', hf', hfd'⟩ := hu
    exact h.agree t u (Ne.symm hut) f hf f' hf' _ hfd fd hfd' rfl m' hatt
  · exact absurd (.inr htimer) (h.not_owns hT (Ne.symm hut) hu.has)

omit [DecidableEq M] in
/-- No thread works on an event that is being closed. -/
theorem Sorted.unused (hT : Traced overlaps (fun t => (G t).trace) w) (h : Sorted S G s)
    (hstack : (G t).trace.stack = [.closeEvent fd]) :
    (∀ u, ∀ f ∈ (G u).trace.stack, fd ∈ f.event? → fd ∈ f.closes?) ∧ ∀ u, fd ∉ (G u).timer := by
  have hclose : .closeEvent fd ∈ (G t).trace.stack := by
    rw [hstack]
    exact List.mem_cons_self
  refine ⟨fun u f hf hfd => ?_, fun u htimer => ?_⟩
  · by_cases hut : u = t
    · rw [hut, hstack, List.mem_singleton] at hf
      subst hf
      rfl
    · exact absurd (.inr (.inl ⟨fd, rfl, hfd⟩)) (hT.apart t u (Ne.symm hut) _ hclose f hf)
  · have hno := (h.used t _ hclose fd rfl).1
    rw [(h.timer u fd htimer).1] at hno
    cases hno

/-! ## Changes -/

/-- Nothing of the events or the sets has changed that matters to them. -/
structure SameSets (s s' : State M) : Prop where
  alive : ∀ fd, (s'.event fd).alive = (s.event fd).alive
  loop_timer : ∀ fd, (s'.event fd).loop_timer = (s.event fd).loop_timer
  emee : ∀ fd,
    (s'.event fd).event_meth_epoll_equiv_impl_ = (s.event fd).event_meth_epoll_equiv_impl_
  interest : ∀ m, (s'.emee m).interest_ = (s.emee m).interest_
  ready : ∀ m, (s'.emee m).ready_ = (s.emee m).ready_
  out : ∀ m, (s'.emee m).ready_evm_events_out = (s.emee m).ready_evm_events_out
  next : s'.next = s.next

omit [DecidableEq M] in
theorem SameSets.listed (hs : SameSets s s') (m : M) (fd : Fd) :
    Listed m fd s' ↔ Listed m fd s := by
  rw [Listed, Listed, hs.interest, hs.out]

omit [DecidableEq M] in
theorem Sorted.same (h : Sorted S G s) (hs : SameSets s s') : Sorted S G s' where
  ready m := by rw [hs.ready, hs.interest]; exact h.ready m
  listed m fd hfd := by
    rw [hs.alive, Attached, hs.emee]
    exact h.listed m fd ((hs.listed m fd).mp hfd)
  keeper m fd hfd := h.keeper m fd (hs.out m ▸ hfd)
  live m fd hatt := h.live m fd ((hs.emee fd).symm.trans hatt)
  fresh fd hfd := by
    rw [hs.next]
    exact h.fresh fd (hs.alive fd ▸ hfd)
  used t f hf fd hfd := by
    rw [hs.loop_timer, hs.next, hs.alive]
    exact h.used t f hf fd hfd
  named := h.named
  polled := h.polled
  agree t u htu f hf f' hf' p hp fd hfd heq m hm :=
    h.agree t u htu f hf f' hf' p hp fd hfd heq m (hs.emee fd ▸ hm)
  timer t fd hfd := by
    rw [hs.loop_timer, hs.alive]
    exact h.timer t fd hfd
  timers := h.timers

omit [DecidableEq M] in
theorem Undisturbed.same (hs : SameSets s s') (g : Place M) : Undisturbed g s s' where
  locked m _ := ⟨hs.interest m, hs.ready m, hs.out m⟩
  named _ fd _ := ⟨fun h => (hs.emee fd).trans h, fun m' _ => (hs.listed m' fd).mp⟩
  followed fd _ _ h := (hs.emee fd).trans h
  owned fd _ := ⟨hs.emee fd, fun m => (hs.listed m fd).mp⟩

/-- An event gets its `EventMethEpollEquiv`. -/
theorem Sorted.attach (hT : Traced overlaps (fun t => (G t).trace) w) (h : Sorted S G s)
    (hnames : (G t).Names m fd) (honly : ∀ f ∈ (G t).trace.stack, ∀ p ∈ f.names?, p = (fd, m))
    (hm : m ∈ S.emee_cptr_set_) (haway : Away (some m) fd s) :
    Sorted S G (s.setEvent fd { s.event fd with event_meth_epoll_equiv_impl_ := some m }) ∧
      ∀ u, u ≠ t → Undisturbed (G u) s
        (s.setEvent fd { s.event fd with event_meth_epoll_equiv_impl_ := some m }) := by
  have hevent : ∀ fd', fd' ≠ fd → (s.setEvent fd { s.event fd with
      event_meth_epoll_equiv_impl_ := some m }).event fd' = s.event fd' :=
    fun fd' hne => s.setEvent_ne _ hne
  have halive : ∀ fd', ((s.setEvent fd { s.event fd with
      event_meth_epoll_equiv_impl_ := some m }).event fd').alive = (s.event fd').alive ∧
        ((s.setEvent fd { s.event fd with event_meth_epoll_equiv_impl_ := some m }).event
          fd').loop_timer = (s.event fd').loop_timer := by
    intro fd'
    by_cases hfd : fd' = fd
    · subst hfd
      simp
    · rw [hevent fd' hfd]
      exact ⟨rfl, rfl⟩
  refine ⟨?_, fun u hut => ?_⟩
  · exact
    { ready := h.ready
      listed := fun m' fd' hl => by
        rw [(halive fd').1]
        refine ⟨(h.listed m' fd' hl).1, ?_⟩
        by_cases hfd : fd' = fd
        · subst hfd
          -- where it is listed it has been listed with `m`
          have hmm : m' = m := by
            by_contra hne
            exact haway m' (fun heq => hne (Option.some.inj heq)) hl
          simp [Attached, hmm]
        · rw [Attached, hevent fd' hfd]
          exact (h.listed m' fd' hl).2
      keeper := h.keeper
      live := fun m' fd' hatt => by
        by_cases hfd : fd' = fd
        · subst hfd
          rw [Attached, State.setEvent_self] at hatt
          cases hatt
          exact hm
        · rw [Attached, hevent fd' hfd] at hatt
          exact h.live m' fd' hatt
      fresh := fun fd' hfd' => h.fresh fd' ((halive fd').1 ▸ hfd')
      used := fun t' f hf fd' hfd' => by
        rw [(halive fd').1, (halive fd').2]
        exact h.used t' f hf fd' hfd'
      named := h.named
      polled := h.polled
      agree := fun t' u' htu f hf f' hf' p hp fd' hfd' heq m' hm' => by
        by_cases hfd : fd' = fd
        · subst hfd
          rw [State.setEvent_self] at hm'
          cases hm'
          subst heq
          by_cases htt : t' = t
          · rw [htt] at hf
            exact (congrArg Prod.snd (honly f hf p hp)).symm
          · exact (h.names_eq hT htt hnames (.inl ⟨f, hf, hp⟩)).symm
        · rw [hevent fd' hfd] at hm'
          exact h.agree t' u' htu f hf f' hf' p hp fd' hfd' heq m' hm'
      timer := fun t' fd' hfd' => by
        rw [(halive fd').1, (halive fd').2]
        exact h.timer t' fd' hfd'
      timers := h.timers }
  · refine ⟨fun m' _ => ⟨rfl, rfl, rfl⟩, fun m' fd' hn => ⟨fun hatt => ?_, fun _ _ hl => hl⟩,
      fun fd' hf m' hatt => ?_, fun fd' ho => ⟨?_, fun _ hl => hl⟩⟩
    · by_cases hfd : fd' = fd
      · subst hfd
        simp [Attached, h.names_eq hT hut hnames hn]
      · rw [Attached, hevent fd' hfd]
        exact hatt
    · by_cases hfd : fd' = fd
      · subst hfd
        simp [Attached, h.follows_eq hT hut hnames hf hatt]
      · rw [Attached, hevent fd' hfd]
        exact hatt
    · by_cases hfd : fd' = fd
      · subst hfd
        exact absurd ho (h.not_owns hT hut hnames.has)
      · rw [hevent fd' hfd]

omit [DecidableEq M] in
/-- Two threads have not locked one mutex. -/
theorem held_eq {g : T → Trace M} (hT : Traced overlaps g w) {l : Mutex M} (ht : l ∈ (g t).held)
    (hu : l ∈ (g u).held) : u = t := by
  have howner := (hT.owner u l).mpr hu
  rw [(hT.owner t l).mpr ht] at howner
  exact (Option.some.inj howner).symm

omit [DecidableEq M] in
/-- What a call works on that is no `closeEvent` has not been deleted. -/
theorem Sorted.alive (h : Sorted S G s) (hmay : (G t).Names m fd ∨ (G t).Follows fd) :
    (s.event fd).alive = true := by
  rcases hmay with (⟨f, hf, hfd⟩ | htimer) | ⟨f, hf, hfd⟩
  · refine (h.used t f hf fd (Call.event_of_names hfd)).2.2.resolve_right fun hclose => ?_
    rw [Call.closes_iff] at hclose
    subst hclose
    cases hfd
  · exact (h.timer t fd htimer).2
  · refine (h.used t f hf fd (Call.event_of_follows hfd)).2.2.resolve_right fun hclose => ?_
    rw [Call.closes_iff] at hclose
    subst hclose
    cases hfd

/-- The sets of `m` change, with its `interest_mutex_`: what comes into them belongs to `m`, and the
thread may put it there. -/
theorem Sorted.setEmee (hT : Traced overlaps (fun t => (G t).trace) w) (h : Sorted S G s)
    (hlock : .interest_mutex_ m ∈ (G t).trace.held) {e : Emee} (hready : e.ready_ ⊆ e.interest_)
    (hlisted : ∀ fd, fd ∈ e.interest_ ∨ fd ∈ e.ready_evm_events_out → Listed m fd s ∨
      (Attached m fd s ∧ ((G t).Names m fd ∨ (G t).Follows fd)))
    (hkept : e.ready_evm_events_out ⊆ (s.emee m).ready_evm_events_out ∨
      (G t).trace.kept = some m) :
    Sorted S G (s.setEmee m e) ∧ ∀ u, u ≠ t → Undisturbed (G u) s (s.setEmee m e) := by
  have hcases : ∀ m' fd, Listed m' fd (s.setEmee m e) → Listed m' fd s ∨
      (m' = m ∧ Attached m fd s ∧ ((G t).Names m fd ∨ (G t).Follows fd)) := by
    intro m' fd hl
    by_cases hm : m' = m
    · subst hm
      rw [Listed, State.setEmee_self] at hl
      exact (hlisted fd hl).imp_right fun hnew => ⟨rfl, hnew⟩
    · rw [Listed, State.setEmee_ne s _ hm] at hl
      exact .inl hl
  refine ⟨?_, fun u hut => ?_⟩
  · exact
    { ready := fun m' => by
        by_cases hm : m' = m
        · subst hm
          rw [State.setEmee_self]
          exact hready
        · rw [State.setEmee_ne s _ hm]
          exact h.ready m'
      listed := fun m' fd hl => by
        rcases hcases m' fd hl with hl | ⟨rfl, hatt, hmay⟩
        · exact h.listed m' fd hl
        · exact ⟨h.alive hmay, hatt⟩
      keeper := fun m' fd hin => by
        by_cases hm : m' = m
        · subst hm
          rw [State.setEmee_self] at hin
          rcases hkept with hsub | hkept
          · exact h.keeper m' fd (hsub hin)
          · exact ⟨t, hkept, hlock⟩
        · rw [State.setEmee_ne s _ hm] at hin
          exact h.keeper m' fd hin
      live := h.live
      fresh := h.fresh
      used := h.used
      named := h.named
      polled := h.polled
      agree := h.agree
      timer := h.timer
      timers := h.timers }
  · refine ⟨fun m' hm' => ?_, fun m' fd hn => ⟨fun ha => ha, fun m₁ hne hl => ?_⟩,
      fun _ _ _ ha => ha, fun fd ho => ⟨rfl, fun m' hl => ?_⟩⟩
    · by_cases hm : m' = m
      · subst hm
        exact absurd (held_eq hT hlock hm') hut
      · rw [State.setEmee_ne s _ hm]
        exact ⟨rfl, rfl, rfl⟩
    · rcases hcases m₁ fd hl with hl | ⟨rfl, hatt, hmay⟩
      · exact hl
      · -- another thread names `m'` for the event
        refine absurd ?_ hne
        rcases hmay with hnames | hfollows
        · exact (h.names_eq hT hut hnames hn).symm
        · exact h.follows_eq hT (Ne.symm hut) hn hfollows hatt
    · rcases hcases m' fd hl with hl | ⟨rfl, -, hmay⟩
      · exact hl
      · exact absurd ho (h.not_owns hT hut (hmay.elim Place.Names.has Place.Follows.has))

/-- An event is put into `interest_`. -/
theorem Sorted.enlist (hT : Traced overlaps (fun t => (G t).trace) w) (h : Sorted S G s)
    (hlock : .interest_mutex_ m ∈ (G t).trace.held) (hmay : (G t).Names m fd ∨ (G t).Follows fd)
    (hatt : Attached m fd s) :
    Sorted S G (s.setEmee m { s.emee m with interest_ := insert fd (s.emee m).interest_ }) ∧
      ∀ u, u ≠ t → Undisturbed (G u) s
        (s.setEmee m { s.emee m with interest_ := insert fd (s.emee m).interest_ }) := by
  refine h.setEmee hT hlock ((h.ready m).trans (Finset.subset_insert fd _)) (fun fd' hl => ?_)
    (.inl (Finset.Subset.refl _))
  rcases hl with hin | hout
  · rcases Finset.mem_insert.mp hin with rfl | hin
    · exact .inr ⟨hatt, hmay⟩
    · exact .inl (.inl hin)
  · exact .inl (.inr hout)

/-- Events leave `interest_`, or go from it to the other sets. -/
theorem Sorted.sets (hT : Traced overlaps (fun t => (G t).trace) w) (h : Sorted S G s)
    (hlock : .interest_mutex_ m ∈ (G t).trace.held) {e : Emee}
    (hinterest : e.interest_ ⊆ (s.emee m).interest_) (hready : e.ready_ ⊆ e.interest_)
    (hout : ∀ fd ∈ e.ready_evm_events_out, Listed m fd s)
    (hkept : e.ready_evm_events_out ⊆ (s.emee m).ready_evm_events_out ∨
      (G t).trace.kept = some m) :
    Sorted S G (s.setEmee m e) ∧ ∀ u, u ≠ t → Undisturbed (G u) s (s.setEmee m e) :=
  h.setEmee hT hlock hready
    (fun fd hl => .inl (hl.elim (fun hin => .inl (hinterest hin)) (hout fd))) hkept

omit [DecidableEq M] in
/-- An event is deleted that is in no set and on which no thread works. -/
theorem Sorted.delete (h : Sorted S G s) (haway : Away none fd s)
    (hunused : ∀ t, ∀ f ∈ (G t).trace.stack, fd ∈ f.event? → fd ∈ f.closes?)
    (hno : ∀ t, fd ∉ (G t).timer) : Sorted S G (deleteEvent fd s) := by
  have hevent : ∀ fd', fd' ≠ fd → (deleteEvent fd s).event fd' = s.event fd' :=
    fun fd' hne => s.setEvent_ne _ hne
  have hemee : ∀ fd', ((deleteEvent fd s).event fd').event_meth_epoll_equiv_impl_ =
      (s.event fd').event_meth_epoll_equiv_impl_ ∧
        ((deleteEvent fd s).event fd').loop_timer = (s.event fd').loop_timer := by
    intro fd'
    by_cases hfd : fd' = fd
    · subst hfd
      simp [deleteEvent]
    · rw [hevent fd' hfd]
      exact ⟨rfl, rfl⟩
  exact
    { ready := h.ready
      listed := fun m fd' hl => by
        have hne : fd' ≠ fd := by
          rintro rfl
          exact haway m nofun hl
        rw [Attached, hevent fd' hne]
        exact h.listed m fd' hl
      keeper := h.keeper
      live := fun m fd' hatt => h.live m fd' ((hemee fd').1.symm.trans hatt)
      fresh := fun fd' hfd' => by
        have hne : fd' ≠ fd := by
          rintro rfl
          simp [deleteEvent] at hfd'
        exact h.fresh fd' (hevent fd' hne ▸ hfd')
      used := fun t f hf fd' hfd' => by
        obtain ⟨htimer, hid, halive⟩ := h.used t f hf fd' hfd'
        refine ⟨(hemee fd').2.trans htimer, hid, ?_⟩
        by_cases hfd : fd' = fd
        · subst hfd
          exact .inr (hunused t f hf hfd')
        · rw [hevent fd' hfd]
          exact halive
      named := h.named
      polled := h.polled
      agree := fun t u htu f hf f' hf' p hp fd' hfd' heq m hm =>
        h.agree t u htu f hf f' hf' p hp fd' hfd' heq m ((hemee fd').1 ▸ hm)
      timer := fun t fd' hfd' => by
        have hne : fd' ≠ fd := by
          rintro rfl
          exact hno t hfd'
        rw [hevent fd' hne]
        exact h.timer t fd' hfd'
      timers := h.timers }

omit [DecidableEq M] in
/-- Nobody relies on an event's not being deleted but by what it has. -/
theorem Undisturbed.delete (g : Place M) (fd : Fd) (s : State M) :
    Undisturbed g s (deleteEvent fd s) := by
  have hemee : ∀ fd', ((deleteEvent fd s).event fd').event_meth_epoll_equiv_impl_ =
      (s.event fd').event_meth_epoll_equiv_impl_ := by
    intro fd'
    by_cases hfd : fd' = fd
    · subst hfd
      simp [deleteEvent]
    · rw [deleteEvent, s.setEvent_ne _ hfd]
  exact ⟨fun _ _ => ⟨rfl, rfl, rfl⟩,
    fun _ fd' _ => ⟨fun h => (hemee fd').trans h, fun _ _ h => h⟩,
    fun fd' _ _ h => (hemee fd').trans h, fun fd' _ => ⟨hemee fd', fun _ h => h⟩⟩

omit [DecidableEq M] in
/-- A new object; with `timer` it is the thread's `loop_timer_eme`. -/
theorem Sorted.alloc [DecidableEq T] (h : Sorted S G s) (type : EmEventType) {e : EmEvent M}
    (hlive : ∀ m ∈ e.event_meth_epoll_equiv_impl_, m ∈ S.emee_cptr_set_) {g : Place M}
    (htrace : g.trace = (G t).trace)
    (htimer : g.timer = (G t).timer ∨ (g.timer = some ⟨type, s.next⟩ ∧ e.loop_timer = true)) :
    Sorted S (Function.update G t g) (s.alloc type e) ∧
      ∀ u, u ≠ t → Undisturbed (G u) s (s.alloc type e) := by
  have hevent : ∀ fd, fd.id < s.next → (s.alloc type e).event fd = s.event fd := by
    intro fd hid
    refine s.setEvent_ne _ ?_
    rintro rfl
    exact Nat.lt_irrefl _ hid
  have htraces : ∀ u, (Function.update G t g u).trace = (G u).trace := by
    intro u
    by_cases hu : u = t
    · subst hu
      simpa using htrace
    · rw [Function.update_of_ne hu]
  have htimers : ∀ u fd, fd ∈ (Function.update G t g u).timer →
      fd ∈ (G u).timer ∨ (u = t ∧ fd = ⟨type, s.next⟩ ∧ e.loop_timer = true) := by
    intro u fd hfd
    by_cases hu : u = t
    · subst hu
      rw [Function.update_self] at hfd
      rcases htimer with hsame | ⟨hnew, hloop⟩
      · exact .inl (hsame ▸ hfd)
      · rw [hnew, Option.mem_some_iff] at hfd
        exact .inr ⟨rfl, hfd.symm, hloop⟩
    · rw [Function.update_of_ne hu] at hfd
      exact .inl hfd
  have hold : ∀ u, ∀ fd ∈ (G u).timer, fd.id < s.next :=
    fun u fd hfd => h.fresh fd (h.timer u fd hfd).2
  refine ⟨?_, fun u _ => ?_⟩
  · exact
    { ready := h.ready
      listed := fun m fd hl => by
        have hin : Listed m fd s := hl
        obtain ⟨halive, hatt⟩ := h.listed m fd hin
        rw [Attached, hevent fd (h.fresh fd halive)]
        exact ⟨halive, hatt⟩
      keeper := fun m fd hin => by
        obtain ⟨u, hu⟩ := h.keeper m fd hin
        exact ⟨u, by rw [htraces u]; exact hu⟩
      live := fun m fd hatt => by
        by_cases hfd : fd = ⟨type, s.next⟩
        · subst hfd
          rw [Attached, State.alloc] at hatt
          simp only [State.setEvent_self] at hatt
          exact hlive m hatt
        · have hsame : (s.alloc type e).event fd = s.event fd := s.setEvent_ne _ hfd
          exact h.live m fd (by rwa [Attached, hsame] at hatt)
      fresh := fun fd hfd => by
        show fd.id < s.next + 1
        by_cases hnew : fd = ⟨type, s.next⟩
        · subst hnew
          exact Nat.lt_succ_self _
        · have hsame : (s.alloc type e).event fd = s.event fd := s.setEvent_ne _ hnew
          exact Nat.lt_succ_of_lt (h.fresh fd (hsame ▸ hfd))
      used := fun u f hf fd hfd => by
        rw [htraces u] at hf
        obtain ⟨htimer, hid, halive⟩ := h.used u f hf fd hfd
        rw [hevent fd hid]
        exact ⟨htimer, Nat.lt_succ_of_lt hid, halive⟩
      named := fun u f hf => h.named u f (htraces u ▸ hf)
      polled := fun u f hf => h.polled u f (htraces u ▸ hf)
      agree := fun u v huv f hf f' hf' p hp fd hfd heq m hm => by
        rw [htraces] at hf hf'
        have hid := (h.used v f' hf' fd (Call.event_of_follows hfd)).2.1
        rw [hevent fd hid] at hm
        exact h.agree u v huv f hf f' hf' p hp fd hfd heq m hm
      timer := fun u fd hfd => by
        rcases htimers u fd hfd with hfd | ⟨-, rfl, hloop⟩
        · rw [hevent fd (hold u fd hfd)]
          exact h.timer u fd hfd
        · simp [State.alloc, hloop]
      timers := fun u v fd hu hv => by
        rcases htimers u fd hu with hu | ⟨hut, rfl, -⟩
        · rcases htimers v fd hv with hv | ⟨-, rfl, -⟩
          · exact h.timers u v fd hu hv
          · exact absurd (hold u _ hu) (Nat.lt_irrefl _)
        · rcases htimers v _ hv with hv | ⟨hvt, -, -⟩
          · exact absurd (hold v _ hv) (Nat.lt_irrefl _)
          · exact hut.trans hvt.symm }
  · have hid : ∀ fd, (G u).Has fd → fd.id < s.next := by
      rintro fd (⟨f, hf, hfd⟩ | hfd)
      · exact (h.used u f hf fd hfd).2.1
      · exact hold u fd hfd
    refine ⟨fun _ _ => ⟨rfl, rfl, rfl⟩, fun m fd hn => ⟨fun ha => ?_, fun _ _ hl => hl⟩,
      fun fd hf m ha => ?_, fun fd ho => ⟨?_, fun _ hl => hl⟩⟩
    · rw [Attached, hevent fd (hid fd hn.has)]
      exact ha
    · rw [Attached, hevent fd (hid fd hf.has)]
      exact ha
    · rw [hevent fd (hid fd ho.has)]

/-! ## Places -/

/-- A call that may come onto the stack of thread `t`. -/
def Admitted (S : Setting M) (G : T → Place M) (s : State M) (t : T) (f : Call M) : Prop :=
  (∀ fd ∈ f.event?, (s.event fd).loop_timer = false ∧ fd.id < s.next ∧ (s.event fd).alive = true) ∧
    (∀ p ∈ f.names?, p.2 ∈ S.emee_cptr_set_) ∧ (∀ m ∈ f.polls?, m ∈ S.emee_cptr_set_) ∧
      ∀ u, u ≠ t → ∀ f' ∈ (G u).trace.stack, Agree s f f' ∧ Agree s f' f

omit [DecidableEq M] in
/-- A thread has another place. -/
theorem Sorted.place [DecidableEq T] (h : Sorted S G s) {g : Place M}
    (hkept : ∀ m, (G t).trace.kept = some m → .interest_mutex_ m ∈ (G t).trace.held →
      (∃ fd, fd ∈ (s.emee m).ready_evm_events_out) →
        g.trace.kept = some m ∧ .interest_mutex_ m ∈ g.trace.held)
    (hstack : ∀ f ∈ g.trace.stack, f ∈ (G t).trace.stack ∨ Admitted S G s t f)
    (htimer : ∀ fd ∈ g.timer, fd ∈ (G t).timer) : Sorted S (Function.update G t g) s := by
  have hstacks : ∀ u, ∀ f ∈ (Function.update G t g u).trace.stack,
      f ∈ (G u).trace.stack ∨ (u = t ∧ Admitted S G s t f) := by
    intro u f hf
    by_cases hu : u = t
    · subst hu
      rw [Function.update_self] at hf
      exact (hstack f hf).imp_right fun hf => ⟨rfl, hf⟩
    · rw [Function.update_of_ne hu] at hf
      exact .inl hf
  have htimers : ∀ u, ∀ fd ∈ (Function.update G t g u).timer, fd ∈ (G u).timer := by
    intro u fd hfd
    by_cases hu : u = t
    · subst hu
      rw [Function.update_self] at hfd
      exact htimer fd hfd
    · rwa [Function.update_of_ne hu] at hfd
  exact
    { ready := h.ready
      listed := h.listed
      keeper := fun m fd hout => by
        obtain ⟨u, hu, hl⟩ := h.keeper m fd hout
        by_cases hut : u = t
        · subst hut
          exact ⟨u, by rw [Function.update_self]; exact hkept m hu hl ⟨fd, hout⟩⟩
        · exact ⟨u, by rw [Function.update_of_ne hut]; exact ⟨hu, hl⟩⟩
      live := h.live
      fresh := h.fresh
      used := fun u f hf fd hfd => by
        rcases hstacks u f hf with hf | ⟨-, hevent, -⟩
        · exact h.used u f hf fd hfd
        · obtain ⟨htimer, hid, halive⟩ := hevent fd hfd
          exact ⟨htimer, hid, .inl halive⟩
      named := fun u f hf p hp => by
        rcases hstacks u f hf with hf | ⟨-, -, hnamed, -⟩
        · exact h.named u f hf p hp
        · exact hnamed p hp
      polled := fun u f hf m hm => by
        rcases hstacks u f hf with hf | ⟨-, -, -, hpolled, -⟩
        · exact h.polled u f hf m hm
        · exact hpolled m hm
      agree := fun u v huv f hf f' hf' => by
        rcases hstacks u f hf with hu | ⟨hut, -, -, -, hagree⟩
        · rcases hstacks v f' hf' with hv | ⟨hvt, -, -, -, hagree⟩
          · exact h.agree u v huv f hu f' hv
          · exact (hagree u (hvt ▸ huv) f hu).2
        · rcases hstacks v f' hf' with hv | ⟨hvt, -⟩
          · exact (hagree v (hut ▸ Ne.symm huv) f' hv).1
          · exact absurd (hut.trans hvt.symm) huv
      timer := fun u fd hfd => h.timer u fd (htimers u fd hfd)
      timers := fun u v fd hu hv => h.timers u v fd (htimers u fd hu) (htimers v fd hv) }

omit [DecidableEq M] in
/-- Nothing is given out of the sets of `m` by another thread than the one that keeps the mutex. -/
theorem Sorted.not_out (hT : Traced overlaps (fun t => (G t).trace) w) (h : Sorted S G s)
    (hlock : .interest_mutex_ m ∈ (G t).trace.held) (hkept : (G t).trace.kept ≠ some m) (fd : Fd) :
    fd ∉ (s.emee m).ready_evm_events_out := by
  intro hout
  obtain ⟨u, hu, hl⟩ := h.keeper m fd hout
  obtain rfl : u = t := held_eq hT hlock hl
  exact hkept hu

/-! ## What the threads rely on -/

/-- The traces and the sets, with what the others leave to a thread. -/
def sets (S : Setting M) : Rely T (Mutex M) (Call M) (State M) (Place M) where
  inv G w := Traced overlaps (fun t => (G t).trace) w ∧ Sorted S G w.shared
  rely := Undisturbed
  refl := Undisturbed.refl

end Pistache.Eventmeth.EpollEquiv
