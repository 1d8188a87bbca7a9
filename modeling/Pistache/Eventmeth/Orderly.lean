import Mathlib.Data.Fintype.Defs
import Pistache.Eventmeth.Traces
import Pistache.Lib.Rely

/-!
# Events that stay while they are in use

What the threads' calls have to do with the interest sets: an event in `interest_` or `ready_` of
an `EventMethEpollEquiv`, or in the set that `getReadyEmEvents` has given out, belongs to that one
and is not deleted.

* `Orderly` — calls of different threads on one event that do not get in each other's way.
* `Sorted` — what holds of the events and the sets.
* `Undisturbed` — what a thread need not expect of the others.
-/

set_option autoImplicit false

namespace Pistache.Eventmeth.EpollEquiv

open Locked

variable {M T : Type}

/-! ## Calls -/

namespace Call

/-- The event that a call works on. -/
def event? : Call M → Option Fd
  | .ctl _ fd => some fd
  | .read fd => some fd
  | .write fd => some fd
  | .settime fd _ => some fd
  | .closeEvent fd => some fd
  | .renewEv fd => some fd
  | .em_event_new | .poll _ | .event_base_loop _ _ | .expire _ => none

/-- The `EventMethEpollEquiv` that a call names for its event. -/
def names? : Call M → Option (Fd × M)
  | .ctl m fd => some (fd, m)
  | .settime fd (some m) => some (fd, m)
  | _ => none

/-- The event of a call that takes the `EventMethEpollEquiv` which the event has. -/
def follows? : Call M → Option Fd
  | .renewEv fd => some fd
  | .settime fd none => some fd
  | _ => none

def closes? : Call M → Option Fd
  | .closeEvent fd => some fd
  | _ => none

def polls? : Call M → Option M
  | .poll m => some m
  | _ => none

/-- `event_base_loop` with a `loop_timer_eme`. -/
def timedLoop : Call M → Bool
  | .event_base_loop _ timed => timed
  | _ => false

theorem event_of_names {f : Call M} {p : Fd × M} (h : p ∈ f.names?) : p.1 ∈ f.event? := by
  cases f with
  | ctl m fd => cases h; rfl
  | settime fd emee =>
    cases emee with
    | none => cases h
    | some m => cases h; rfl
  | _ => cases h

theorem event_of_follows {f : Call M} {fd : Fd} (h : fd ∈ f.follows?) : fd ∈ f.event? := by
  cases f with
  | renewEv fd => exact h
  | settime fd emee =>
    cases emee with
    | none => exact h
    | some m => cases h
  | _ => cases h

theorem closes_iff {f : Call M} {fd : Fd} : fd ∈ f.closes? ↔ f = .closeEvent fd := by
  cases f <;> simp [closes?]

end Call

/-- Two polls of one `EventMethEpollEquiv`, a `closeEvent` and another call of its event, and two
calls that name different `EventMethEpollEquiv`s for one event. -/
def Overlap (f f' : Call M) : Prop :=
  (∃ m ∈ f.polls?, m ∈ f'.polls?) ∨ (∃ fd ∈ f.closes?, fd ∈ f'.event?) ∨
    (∃ fd ∈ f'.closes?, fd ∈ f.event?) ∨
      ∃ p ∈ f.names?, ∃ p' ∈ f'.names?, p.1 = p'.1 ∧ p.2 ≠ p'.2

theorem Overlap.symm {f f' : Call M} (h : Overlap f f') : Overlap f' f := by
  rcases h with ⟨m, hm, hm'⟩ | h | h | ⟨p, hp, p', hp', heq, hne⟩
  · exact .inl ⟨m, hm', hm⟩
  · exact .inr (.inr (.inl h))
  · exact .inr (.inl h)
  · exact .inr (.inr (.inr ⟨p', hp', p, hp, heq.symm, hne.symm⟩))

def overlaps : Clashes M := ⟨Overlap, Overlap.symm, fun m => .inl ⟨m, rfl, rfl⟩⟩

/-- The call `f` names for an event that `f'` takes as it is the `EventMethEpollEquiv` which the
event has, if it has one. -/
def Agree (s : State M) (f f' : Call M) : Prop :=
  ∀ p ∈ f.names?, ∀ fd ∈ f'.follows?, fd = p.1 →
    ∀ m ∈ (s.event fd).event_meth_epoll_equiv_impl_, m = p.2

/-- The call agrees with those of the other threads. -/
def Agrees (w : World T (Mutex M) (Call M) (State M)) (t : T) (f : Call M) : Prop :=
  ∀ u, u ≠ t → ∀ f' ∈ w.stack u, Agree w.shared f f' ∧ Agree w.shared f' f

/-- The `EventMethEpollEquiv` that a procedure is called with. -/
def Proc.emee? : Proc M → Option M
  | .em_event_new _ _ _ _ _ emee => emee
  | .ctl _ m _ _ => some m
  | .settime _ _ emee => emee
  | .poll m _ => some m
  | .eventLoop m _ => some m
  | .read _ | .write _ _ | .closeEvent _ => none

/-- What the caller does not see or has closed is not worked on. -/
def Usable (s : State M) (f : Call M) : Prop :=
  ∀ fd ∈ f.event?, (s.event fd).alive = true ∧ (s.event fd).loop_timer = false

/-- The loop ends without an error and with events where a `loop_timer_eme` is in it. -/
def LoopEnds (stack : List (Call M)) (answer : Answer) : Prop :=
  ∀ f ∈ stack.head?, f.timedLoop = true → answer ≠ .error ∧ answer ≠ .idle

/-- No event is used when it is closed, nor by calls that do not go together; `event_base_loop`
comes back with events where it has been given a timer. -/
def Orderly (S : Setting M) : Condition T (Mutex M) (Call M) Answer (State M) (Proc M) where
  start w t call :=
    (∀ f ∈ call.name, Alone overlaps w t f ∧ Agrees w t f ∧ Usable w.shared f) ∧
      ∀ m ∈ call.emee?, m ∈ S.emee_cptr_set_
  enter w t f := Alone overlaps w t f ∧ Agrees w t f
  answer w t answer := LoopEnds (w.stack t) answer

section

variable [DecidableEq M] {S : Setting M}

instance : DecidableRel (Overlap (M := M)) := fun f f' => by
  unfold Overlap
  infer_instance

instance [Fintype T] [DecidableEq T] (w : World T (Mutex M) (Call M) (State M)) (t : T)
    (f : Call M) : Decidable (Alone overlaps w t f) :=
  inferInstanceAs (Decidable (∀ u, u ≠ t → ∀ f' ∈ w.stack u, ¬Overlap f f'))

instance (s : State M) (f f' : Call M) : Decidable (Agree s f f') := by
  unfold Agree
  infer_instance

instance [Fintype T] [DecidableEq T] (w : World T (Mutex M) (Call M) (State M)) (t : T)
    (f : Call M) : Decidable (Agrees w t f) := by
  unfold Agrees
  infer_instance

instance (s : State M) (f : Call M) : Decidable (Usable s f) := by
  unfold Usable
  infer_instance

instance (stack : List (Call M)) (answer : Answer) : Decidable (LoopEnds stack answer) := by
  unfold LoopEnds
  infer_instance

instance [Fintype T] [DecidableEq T] (w : World T (Mutex M) (Call M) (State M)) (t : T)
    (call : Proc M) : Decidable ((Orderly S).start w t call) := by
  unfold Orderly
  infer_instance

instance [Fintype T] [DecidableEq T] (w : World T (Mutex M) (Call M) (State M)) (t : T)
    (f : Call M) : Decidable ((Orderly S).enter w t f) := by
  unfold Orderly
  infer_instance

instance (w : World T (Mutex M) (Call M) (State M)) (t : T) (answer : Answer) :
    Decidable ((Orderly S).answer w t answer) := by
  unfold Orderly
  infer_instance

end

/-! ## What the threads have -/

/-- The mutexes and the stack of a thread, and the `loop_timer_eme` that it has made. -/
structure Place (M : Type) where
  trace : Trace M := {}
  timer : Option Fd := none

namespace Place

/-- A call of the thread works on the event, or the event is its `loop_timer_eme`. -/
def Has (g : Place M) (fd : Fd) : Prop :=
  (∃ f ∈ g.trace.stack, fd ∈ f.event?) ∨ fd ∈ g.timer

/-- No other thread has the event. -/
def Owns (g : Place M) (fd : Fd) : Prop := .closeEvent fd ∈ g.trace.stack ∨ fd ∈ g.timer

/-- The thread may put the event into the sets of `m`. -/
def Names (g : Place M) (m : M) (fd : Fd) : Prop :=
  (∃ f ∈ g.trace.stack, (fd, m) ∈ f.names?) ∨ fd ∈ g.timer

/-- The thread may put the event into the sets of the `EventMethEpollEquiv` which it has. -/
def Follows (g : Place M) (fd : Fd) : Prop := ∃ f ∈ g.trace.stack, fd ∈ f.follows?

theorem Owns.has {g : Place M} {fd : Fd} (h : g.Owns fd) : g.Has fd :=
  h.imp (fun hin => ⟨_, hin, rfl⟩) fun h => h

theorem Names.has {g : Place M} {m : M} {fd : Fd} (h : g.Names m fd) : g.Has fd :=
  h.imp (fun ⟨f, hf, hfd⟩ => ⟨f, hf, Call.event_of_names hfd⟩) fun h => h

theorem Follows.has {g : Place M} {fd : Fd} (h : g.Follows fd) : g.Has fd :=
  .inl (h.imp fun _ ⟨hf, hfd⟩ => ⟨hf, Call.event_of_follows hfd⟩)

end Place

/-! ## The sets -/

/-- The event is of interest, or has been given out. -/
def Listed (m : M) (fd : Fd) (s : State M) : Prop :=
  fd ∈ (s.emee m).interest_ ∨ fd ∈ (s.emee m).ready_evm_events_out

/-- The event is in the sets of no `EventMethEpollEquiv` but `except`. -/
def Away (except : Option M) (fd : Fd) (s : State M) : Prop :=
  ∀ m, some m ≠ except → ¬Listed m fd s

/-- The event belongs to `m`. -/
def Attached (m : M) (fd : Fd) (s : State M) : Prop :=
  (s.event fd).event_meth_epoll_equiv_impl_ = some m

theorem Away.some {fd : Fd} {s : State M} (h : Away none fd s) (except : Option M) :
    Away except fd s := fun m _ => h m nofun

/-- What holds of the events and the sets, with what the threads have. -/
structure Sorted (S : Setting M) (G : T → Place M) (s : State M) : Prop where
  ready : ∀ m, (s.emee m).ready_ ⊆ (s.emee m).interest_
  listed : ∀ m fd, Listed m fd s → (s.event fd).alive = true ∧ Attached m fd s
  keeper : ∀ m fd, fd ∈ (s.emee m).ready_evm_events_out →
    ∃ t, (G t).trace.kept = some m ∧ .interest_mutex_ m ∈ (G t).trace.held
  live : ∀ m fd, Attached m fd s → m ∈ S.emee_cptr_set_
  fresh : ∀ fd, (s.event fd).alive = true → fd.id < s.next
  used : ∀ t, ∀ f ∈ (G t).trace.stack, ∀ fd ∈ f.event?, (s.event fd).loop_timer = false ∧
    fd.id < s.next ∧ ((s.event fd).alive = true ∨ fd ∈ f.closes?)
  named : ∀ t, ∀ f ∈ (G t).trace.stack, ∀ p ∈ f.names?, p.2 ∈ S.emee_cptr_set_
  polled : ∀ t, ∀ f ∈ (G t).trace.stack, ∀ m ∈ f.polls?, m ∈ S.emee_cptr_set_
  agree : ∀ t u, t ≠ u → ∀ f ∈ (G t).trace.stack, ∀ f' ∈ (G u).trace.stack, Agree s f f'
  timer : ∀ t, ∀ fd ∈ (G t).timer, (s.event fd).loop_timer = true ∧ (s.event fd).alive = true
  timers : ∀ t u fd, fd ∈ (G t).timer → fd ∈ (G u).timer → t = u

/-- What the others leave to a thread. -/
structure Undisturbed (g : Place M) (s s' : State M) : Prop where
  locked : ∀ m, .interest_mutex_ m ∈ g.trace.held →
    (s'.emee m).interest_ = (s.emee m).interest_ ∧ (s'.emee m).ready_ = (s.emee m).ready_ ∧
      (s'.emee m).ready_evm_events_out = (s.emee m).ready_evm_events_out
  named : ∀ m fd, g.Names m fd →
    (Attached m fd s → Attached m fd s') ∧ ∀ m', m' ≠ m → Listed m' fd s' → Listed m' fd s
  followed : ∀ fd, g.Follows fd → ∀ m, Attached m fd s → Attached m fd s'
  owned : ∀ fd, g.Owns fd →
    (s'.event fd).event_meth_epoll_equiv_impl_ = (s.event fd).event_meth_epoll_equiv_impl_ ∧
      ∀ m, Listed m fd s' → Listed m fd s

theorem Undisturbed.refl (g : Place M) (s : State M) : Undisturbed g s s :=
  ⟨fun _ _ => ⟨rfl, rfl, rfl⟩, fun _ _ _ => ⟨fun h => h, fun _ _ h => h⟩, fun _ _ _ h => h,
    fun _ _ => ⟨rfl, fun _ h => h⟩⟩

theorem Undisturbed.trans {g : Place M} {s s' s'' : State M} (h : Undisturbed g s s')
    (h' : Undisturbed g s' s'') : Undisturbed g s s'' where
  locked m hm := by
    obtain ⟨hinterest, hready, hout⟩ := h.locked m hm
    rw [← hinterest, ← hready, ← hout]
    exact h'.locked m hm
  named m fd hfd := ⟨fun hatt => (h'.named m fd hfd).1 ((h.named m fd hfd).1 hatt),
    fun m' hne hl => (h.named m fd hfd).2 m' hne ((h'.named m fd hfd).2 m' hne hl)⟩
  followed fd hfd m hatt := h'.followed fd hfd m (h.followed fd hfd m hatt)
  owned fd hfd := ⟨(h'.owned fd hfd).1.trans (h.owned fd hfd).1,
    fun m hl => (h.owned fd hfd).2 m ((h'.owned fd hfd).2 m hl)⟩

/-- A thread with more mutexes and more calls is left more. -/
theorem Undisturbed.mono {g g' : Place M} {s s' : State M} (h : Undisturbed g' s s')
    (hheld : ∀ l ∈ g.trace.held, l ∈ g'.trace.held)
    (hstack : ∀ f ∈ g.trace.stack, f ∈ g'.trace.stack) (htimer : g.timer = g'.timer) :
    Undisturbed g s s' where
  locked m hm := h.locked m (hheld _ hm)
  named m fd hfd := h.named m fd
    (hfd.imp (fun ⟨f, hf, hin⟩ => ⟨f, hstack f hf, hin⟩) fun hin => htimer ▸ hin)
  followed fd hfd := h.followed fd (hfd.imp fun f ⟨hf, hin⟩ => ⟨hstack f hf, hin⟩)
  owned fd hfd := h.owned fd (hfd.imp (hstack _) fun hin => htimer ▸ hin)

end Pistache.Eventmeth.EpollEquiv
