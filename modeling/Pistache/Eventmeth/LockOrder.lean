import Mathlib.Data.Fintype.Defs
import Pistache.Eventmeth.Traces

/-!
# The order of the mutexes

`counter_val_mutex_` of an eventfd comes before `emee_cptr_set_mutex_`, that before
`interest_mutex_`, and `ready_mutex_` comes last.  The `counter_val_mutex_` of a timer comes
behind `interest_mutex_` in the timer's callback, but before it where `read` or `settime` renews
the timer.

* `Trace.MayWait` — for which mutexes a thread may wait with what it has locked.
* `Balanced` — programs that give back what they lock.
-/

set_option autoImplicit false

namespace Pistache.Eventmeth.EpollEquiv

open Locked

variable {M T : Type}

/-! ## Which calls must not meet -/

/-- Two threads do not poll one `EventMethEpollEquiv`, and a timer is not renewed while its
callback is at `writeProt(1)`. -/
def Clash : Call M → Call M → Prop
  | .renewEv fd, .expire fd' => fd = fd'
  | .expire fd, .renewEv fd' => fd = fd'
  | .poll m, .poll m' => m = m'
  | _, _ => False

theorem Clash.symm {f f' : Call M} (h : Clash f f') : Clash f' f := by
  unfold Clash at h ⊢
  split at h
  all_goals first
    | exact h.symm
    | cases h

def renewals : Clashes M := ⟨Clash, Clash.symm, fun _ => rfl⟩

/-- Calls that must not meet do not. -/
def Apart : Condition T (Mutex M) (Call M) Answer (State M) (Proc M) where
  start w t call := ∀ f ∈ call.name, Alone renewals w t f
  enter := Alone renewals

section

variable [DecidableEq M]

instance : DecidableRel (Clash (M := M)) := fun f f' => by
  unfold Clash
  split <;> infer_instance

instance [Fintype T] [DecidableEq T] (w : World T (Mutex M) (Call M) (State M)) (t : T)
    (f : Call M) : Decidable (Alone renewals w t f) :=
  inferInstanceAs (Decidable (∀ u, u ≠ t → ∀ f' ∈ w.stack u, ¬Clash f f'))

instance [Fintype T] [DecidableEq T] (w : World T (Mutex M) (Call M) (State M)) (t : T)
    (call : Proc M) : Decidable (Apart.start w t call) :=
  match h : call.name with
  | none => isTrue fun f hf => by simp [h] at hf
  | some f => decidable_of_iff (Alone renewals w t f) (by simp [Apart, h])

instance [Fintype T] [DecidableEq T] (w : World T (Mutex M) (Call M) (State M)) (t : T)
    (f : Call M) : Decidable (Apart.enter w t f) :=
  inferInstanceAs (Decidable (Alone renewals w t f))

instance (w : World T (Mutex M) (Call M) (State M)) (t : T) (answer : Answer) :
    Decidable (Apart.answer w t answer) :=
  inferInstanceAs (Decidable True)

end

/-! ## The order -/

def Mutex.rank : Mutex M → Nat
  | .counter_val_mutex_ fd => if fd.type = .EmEvTimer then 4 else 0
  | .emee_cptr_set_mutex_ => 1
  | .int_mut_locked_by_get_ready_em_events_mutex_ _ => 2
  | .interest_mutex_ _ => 3
  | .ready_mutex_ _ => 5

namespace Trace

/-- With `h` locked the thread may wait for `l`. -/
def Before (g : Trace M) (h l : Mutex M) : Prop :=
  (h.rank < l.rank ∧ ∀ fd, l = .counter_val_mutex_ fd → .expire fd ∈ g.stack ∧
      .renewEv fd ∉ g.stack) ∨
    ∃ fd, h = .counter_val_mutex_ fd ∧ .renewEv fd ∈ g.stack ∧
      (l = .emee_cptr_set_mutex_ ∨ (∃ m, l = .interest_mutex_ m) ∨ ∃ m, l = .ready_mutex_ m)

/-- The thread may wait for `l`.  What is locked with the other mutex of `poll` does not matter. -/
def MayWait (g : Trace M) (l : Mutex M) : Prop :=
  l ∉ g.held ∧
    match l with
    | .int_mut_locked_by_get_ready_em_events_mutex_ m => .poll m ∈ g.stack
    | l => ∀ h ∈ g.held, g.Before h l

/-- Of the thread's mutexes those may be locked that come behind the counters. -/
def Open (g : Trace M) : Prop :=
  ∀ h ∈ g.held, ∃ fd, h = .counter_val_mutex_ fd ∧ (fd.type = .EmEvTimer → .renewEv fd ∈ g.stack)

end Trace

def traces (T M : Type) : Ghost T (Mutex M) (Call M) (State M) (Trace M) :=
  ⟨Traced renewals, Trace.MayWait⟩

variable {g : Trace M}

/-! ## Which mutexes may be locked -/

/-- Behind the counters that are open, in the order of the sets. -/
theorem Trace.Open.locked (hopen : g.Open) {l : Mutex M} (ls : List (Mutex M))
    (hls : ∀ h ∈ ls, h.rank < l.rank)
    (hl : l = .emee_cptr_set_mutex_ ∨ (∃ m, l = .interest_mutex_ m) ∨ ∃ m, l = .ready_mutex_ m) :
    { g with held := ls ++ g.held : Trace M }.MayWait l := by
  have hcounter : ∀ fd, l ≠ .counter_val_mutex_ fd := by
    rintro fd rfl
    rcases hl with h | ⟨m, h⟩ | ⟨m, h⟩ <;> cases h
  have hpos : 0 < l.rank := by
    rcases hl with rfl | ⟨m, rfl⟩ | ⟨m, rfl⟩ <;> simp [Mutex.rank]
  have hbefore : ∀ h ∈ ls ++ g.held, Trace.Before { g with held := ls ++ g.held } h l := by
    intro h hh
    rcases List.mem_append.mp hh with hh | hh
    · exact .inl ⟨hls h hh, fun fd hfd => absurd hfd (hcounter fd)⟩
    · obtain ⟨fd, rfl, hrenew⟩ := hopen h hh
      by_cases htimer : fd.type = .EmEvTimer
      · exact .inr ⟨fd, rfl, hrenew htimer, hl⟩
      · exact .inl ⟨by simpa [Mutex.rank, htimer] using hpos, fun fd hfd => absurd hfd (hcounter fd)⟩
  refine ⟨fun hin => ?_, ?_⟩
  · rcases List.mem_append.mp hin with hin | hin
    · exact Nat.lt_irrefl _ (hls l hin)
    · obtain ⟨fd, hfd, -⟩ := hopen l hin
      exact hcounter fd hfd
  · rcases hl with rfl | ⟨m, rfl⟩ | ⟨m, rfl⟩ <;> exact hbefore

theorem Trace.Open.emee (hopen : g.Open) : g.MayWait .emee_cptr_set_mutex_ :=
  hopen.locked [] (fun _ h => absurd h List.not_mem_nil) (.inl rfl)

theorem Trace.Open.interest (hopen : g.Open) (m : M) : g.MayWait (.interest_mutex_ m) :=
  hopen.locked [] (fun _ h => absurd h List.not_mem_nil) (.inr (.inl ⟨m, rfl⟩))

theorem Trace.Open.emee_interest (hopen : g.Open) (m : M) :
    (g.lock .emee_cptr_set_mutex_).MayWait (.interest_mutex_ m) :=
  hopen.locked [.emee_cptr_set_mutex_] (fun h hh => by simp_all [Mutex.rank])
    (.inr (.inl ⟨m, rfl⟩))

theorem Trace.Open.interest_ready (hopen : g.Open) (m : M) :
    (g.lock (.interest_mutex_ m)).MayWait (.ready_mutex_ m) :=
  hopen.locked [.interest_mutex_ m] (fun h hh => by simp_all [Mutex.rank]) (.inr (.inr ⟨m, rfl⟩))

theorem Trace.Open.emee_interest_ready (hopen : g.Open) (m : M) :
    ((g.lock .emee_cptr_set_mutex_).lock (.interest_mutex_ m)).MayWait (.ready_mutex_ m) :=
  hopen.locked [.interest_mutex_ m, .emee_cptr_set_mutex_]
    (fun h hh => by rcases List.mem_cons.mp hh with rfl | hh <;> simp_all [Mutex.rank])
    (.inr (.inr ⟨m, rfl⟩))

theorem Trace.open_of_nil (hheld : g.held = []) : g.Open := fun h hh => by
  rw [hheld] at hh
  cases hh

theorem Trace.mayWait_of_nil (hheld : g.held = []) (fd : Fd) :
    g.MayWait (.counter_val_mutex_ fd) := by
  refine ⟨by simp [hheld], fun h hh => ?_⟩
  rw [hheld] at hh
  cases hh

/-! ## One step -/

variable [DecidableEq T] {t : T}

theorem keeps_change {f : State M → State M}
    (hf : ∀ s m, ((f s).emee m).int_mut_locked_by_get_ready_em_events_ =
      (s.emee m).int_mut_locked_by_get_ready_em_events_) {ok : _ → Prop} :
    Keeps (traces T M) t g ok (·.change f) fun _ g' => g' = g := by
  rintro G w rfl hinv -
  exact ⟨G t, by rw [Function.update_eq_self]; exact hinv.change hf, rfl⟩

theorem keeps_id {ok : _ → Prop} :
    Keeps (traces T M) t g ok id fun _ g' => g' = g := by
  rintro G w rfl hinv -
  exact ⟨G t, by rw [Function.update_eq_self]; exact hinv, rfl⟩

theorem keeps_enter {f : Call M} :
    Keeps (traces T M) t g (Alone renewals · t f) (fun w => w.setStack t (f :: w.stack t))
      fun _ g' => g' = g.push f := by
  rintro G w rfl hinv halone
  exact ⟨_, hinv.setStack_push halone, rfl⟩

theorem keeps_leave {f : Call M} (hf : ∀ m, f ≠ .poll m) {ok : _ → Prop} :
    Keeps (traces T M) t (g.push f) ok (fun w => w.setStack t (w.stack t).tail)
      fun _ g' => g' = g :=
  fun _ _ hg hinv _ => ⟨g, Traced.setStack_tail hinv hf hg, rfl⟩

variable [DecidableEq M]

theorem keeps_lock {l : Mutex M}
    (hpoll : ∀ m, l = .int_mut_locked_by_get_ready_em_events_mutex_ m → .poll m ∈ g.stack) :
    Keeps (traces T M) t g (fun w => w.owner l = none) (·.setOwner l (some t))
      fun _ g' => g' = g.lock l := by
  rintro G w rfl hinv hfree
  exact ⟨_, hinv.setOwner_lock hfree hpoll, rfl⟩

theorem keeps_unlock {l : Mutex M} (hl : l ∈ g.held) {ok : _ → Prop} :
    Keeps (traces T M) t g ok (·.setOwner l none)
      fun _ g' => g' = { g with held := g.held.erase l } := by
  rintro G w rfl hinv -
  exact ⟨_, hinv.setOwner_unlock hl, rfl⟩

/-! ## Balanced programs -/

variable {α β : Type}

/-- The program keeps the invariant and leaves the trace as it was. -/
def Balanced (t : T) (p : Code M α) (g : Trace M) : Prop :=
  WP Apart (traces T M) t p g (fun _ g' => g' = g) fun g' => g' = g

namespace Balanced

variable {p : Code M α} {l : Mutex M} {f : Call M}

theorem pure {a : α} : Balanced t (.pure a : Code M α) g := rfl

theorem throw {what : String} : Balanced t (.throw what : Code M α) g := rfl

theorem bind {f : α → Code M β} (hp : Balanced t p g) (hf : ∀ a, Balanced t (f a) g) :
    Balanced t (p >>= f) g :=
  WP.bind (WP.mono (fun a _ hg => hg ▸ hf a) (fun _ hg => hg) hp)

theorem read {f : State M → α} : Balanced t (.read f) g := WP.read keeps_id

theorem ask : Balanced t (.ask : Code M Answer) g := WP.ask fun _ => keeps_id

theorem modify {f : State M → State M}
    (hf : ∀ s m, ((f s).emee m).int_mut_locked_by_get_ready_em_events_ =
      (s.emee m).int_mut_locked_by_get_ready_em_events_) : Balanced t (.modify f) g :=
  WP.modify (keeps_change hf)

theorem act {f : State M → State M} {k : State M → Code M α}
    (hf : ∀ s m, ((f s).emee m).int_mut_locked_by_get_ready_em_events_ =
      (s.emee m).int_mut_locked_by_get_ready_em_events_) (hk : ∀ s, Balanced t (k s) g) :
    Balanced t (.act f k) g :=
  (keeps_change hf).mono (fun _ hw => hw) fun w _ hg => hg ▸ hk w.shared

theorem unlock {ok : _ → Prop} :
    Keeps (traces T M) t (g.lock l) ok (·.setOwner l none) fun _ g' => g' = g :=
  (keeps_unlock List.mem_cons_self).mono (fun _ hw => hw) fun _ g' hg => by
    simpa [Trace.lock] using hg

theorem guarded (hwait : g.MayWait l) (hp : Balanced t p (g.lock l)) :
    Balanced t (p.guarded l) g := by
  have hpoll : ∀ m, l = .int_mut_locked_by_get_ready_em_events_mutex_ m → .poll m ∈ g.stack := by
    rintro m rfl
    exact hwait.2
  have hlock : Keeps (traces T M) t g (fun w => w.owner l = none) (·.setOwner l (some t))
      fun _ g' => WP Apart (traces T M) t p g' (fun _ g'' => g'' = g.lock l)
        fun g'' => g'' = g.lock l :=
    (keeps_lock hpoll).mono (fun _ hw => hw) fun _ _ hg => hg ▸ hp
  exact WP.guarded hwait hlock (fun _ _ hg => hg ▸ unlock) fun _ hg => hg ▸ unlock

theorem within (hf : ∀ m, f ≠ .poll m) (hp : Balanced t p (g.push f)) :
    Balanced t (p.within f) g := by
  have henter : Keeps (traces T M) t g (Apart.enter · t f) (fun w => w.setStack t (f :: w.stack t))
      fun _ g' => WP Apart (traces T M) t p g' (fun _ g'' => g'' = g.push f)
        fun g'' => g'' = g.push f :=
    keeps_enter.mono (fun _ hw => hw) fun _ _ hg => hg ▸ hp
  exact WP.within henter (fun _ _ hg => hg ▸ keeps_leave hf) fun _ hg => hg ▸ keeps_leave hf

theorem attempt (hp : Balanced t p g) : Balanced t p.attempt g := WP.attempt hp

theorem ite {c : Prop} [Decidable c] {p q : Code M α} (hp : c → Balanced t p g)
    (hq : ¬c → Balanced t q g) : Balanced t (if c then p else q) g := WP.ite hp hq

end Balanced

end Pistache.Eventmeth.EpollEquiv
