import Pistache.Eventmeth.InterestSets

/-!
# Rules for the interest sets

The rules of what a thread knows, for the programs over the events and the interest sets.

* `Lasting` — facts that the other threads leave as they are.
* `Does` — what a program of a thread does, from a fact to a fact.
* `Quiet` — programs that do nothing to the events and the sets that matters.
* `Safe` — programs behind which nothing is known.
-/

set_option autoImplicit false

namespace Pistache.Eventmeth.EpollEquiv

open Locked

variable {M T : Type} {S : Setting M} {t : T} {g g' : Place M} {m m' : M} {fd : Fd}
variable {K K' : State M → Prop}

/-! ## Facts -/

/-- A fact about the sets that no other thread changes. -/
structure Lasting (g : Place M) (K : State M → Prop) : Prop where
  stable : Stable (Undisturbed g) K
  same : ∀ s s', SameSets s s' → K s → K s'

namespace Lasting

theorem const {p : Prop} : Lasting g fun _ => p := ⟨.const, fun _ _ _ hp => hp⟩

theorem and (h : Lasting g K) (h' : Lasting g K') : Lasting g fun s => K s ∧ K' s :=
  ⟨h.stable.and h'.stable, fun s s' hs hK => ⟨h.same s s' hs hK.1, h'.same s s' hs hK.2⟩⟩

theorem imp {p : Prop} (h : p → Lasting g K) : Lasting g fun s => p → K s :=
  ⟨.imp fun hp => (h hp).stable, fun s s' hs hK hp => (h hp).same s s' hs (hK hp)⟩

theorem or_const {p : Prop} (h : ¬p → Lasting g K) : Lasting g fun s => p ∨ K s := by
  by_cases hp : p
  · simp only [hp, true_or]
    exact const
  · simp only [hp, false_or]
    exact h hp

theorem const_and {p : Prop} (h : p → Lasting g K) : Lasting g fun s => p ∧ K s :=
  ⟨fun s s' hs hK => ⟨hK.1, (h hK.1).stable s s' hs hK.2⟩,
    fun s s' hs hK => ⟨hK.1, (h hK.1).same s s' hs hK.2⟩⟩

theorem all {ι : Sort*} {K : ι → State M → Prop} (h : ∀ i, Lasting g (K i)) :
    Lasting g fun s => ∀ i, K i s :=
  ⟨.all fun i => (h i).stable, fun s s' hs hK i => (h i).same s s' hs (hK i)⟩

theorem attached (h : g.Names m fd ∨ g.Follows fd) : Lasting g (Attached m fd) where
  stable s s' hs hatt := by
    rcases h with hn | hf
    · exact (hs.named m fd hn).1 hatt
    · exact hs.followed fd hf m hatt
  same _ _ hs hatt := (hs.emee fd).trans hatt

theorem not_listed (h : g.Names m fd) (hne : m' ≠ m) : Lasting g fun s => ¬Listed m' fd s where
  stable _ _ hs hno hl := hno ((hs.named m fd h).2 m' hne hl)
  same _ _ hs hno hl := hno ((hs.listed m' fd).mp hl)

theorem away (h : g.Owns fd) : Lasting g (Away none fd) where
  stable _ _ hs ha m hne hl := ha m hne ((hs.owned fd h).2 m hl)
  same _ _ hs ha m hne hl := ha m hne ((hs.listed m fd).mp hl)

theorem emee (h : g.Owns fd) (emee : Option M) :
    Lasting g fun s => (s.event fd).event_meth_epoll_equiv_impl_ = emee where
  stable _ _ hs heq := (hs.owned fd h).1.trans heq
  same _ _ hs heq := (hs.emee fd).trans heq

/-- What is of interest stays so while the thread has the mutex. -/
theorem interest (h : .interest_mutex_ m ∈ g.trace.held) :
    Lasting g fun s => fd ∈ (s.emee m).interest_ where
  stable _ s' hs hin := by
    show fd ∈ (s'.emee m).interest_
    rw [(hs.locked m h).1]
    exact hin
  same _ s' hs hin := by
    show fd ∈ (s'.emee m).interest_
    rw [hs.interest m]
    exact hin

theorem ready (h : .interest_mutex_ m ∈ g.trace.held) :
    Lasting g fun s => (s.emee m).ready_ = ∅ where
  stable _ _ hs hempty := (hs.locked m h).2.1.trans hempty
  same _ _ hs hempty := (hs.ready m).trans hempty

theorem mono (h : Lasting g K) (hle : ∀ s s', Undisturbed g' s s' → Undisturbed g s s') :
    Lasting g' K := ⟨h.stable.mono hle, h.same⟩

end Lasting

/-! ## Places -/

namespace Place

def lock (g : Place M) (l : Mutex M) : Place M := { g with trace := g.trace.lock l }

def push (g : Place M) (f : Call M) : Place M := { g with trace := g.trace.push f }

end Place

theorem Undisturbed.of_lock {l : Mutex M} {s s' : State M} (h : Undisturbed (g.lock l) s s') :
    Undisturbed g s s' :=
  h.mono (fun _ hl => List.mem_cons_of_mem l hl) (fun _ hf => hf) rfl

theorem Undisturbed.of_push {f : Call M} {s s' : State M} (h : Undisturbed (g.push f) s s') :
    Undisturbed g s s' :=
  h.mono (fun _ hl => hl) (fun _ hf => List.mem_cons_of_mem f hf) rfl

section

variable [DecidableEq T] {G : T → Place M} {w w' : World T (Mutex M) (Call M) (State M)}

theorem trace_update (G : T → Place M) (t : T) (g : Place M) :
    (fun u => (Function.update G t g u).trace) =
      Function.update (fun u => (G u).trace) t g.trace := by
  funext u
  by_cases hu : u = t
  · subst hu
    simp
  · simp [hu]

/-- The traces and the sets, where thread `t` has the place `g`. -/
theorem sets_update (hT : Traced overlaps (Function.update (fun u => (G u).trace) t g.trace) w)
    (h : Sorted S (Function.update G t g) w.shared) : (sets S).inv (Function.update G t g) w :=
  ⟨by rw [trace_update]; exact hT, h⟩

variable [DecidableEq M] {l : Mutex M}

theorem sets_lock (hinv : (sets S).inv G w) (hg : G t = g) (hfree : w.owner l = none)
    (hpoll : ∀ m, l = .int_mut_locked_by_get_ready_em_events_mutex_ m → .poll m ∈ g.trace.stack) :
    (sets S).inv (Function.update G t (g.lock l)) (w.setOwner l (some t)) := by
  subst hg
  refine sets_update (hinv.1.setOwner_lock hfree hpoll) (hinv.2.place ?_ (fun _ hf => .inl hf)
    fun _ hfd => hfd)
  exact fun m hkept hheld _ => ⟨hkept, List.mem_cons_of_mem l hheld⟩

/-- `interest_mutex_` is unlocked by a thread that has given nothing out of the sets. -/
theorem sets_unlock (hinv : (sets S).inv G w) (hg : G t = g) (hl : l ∈ g.trace.held)
    (hout : ∀ m, l = .interest_mutex_ m → ∀ fd, fd ∉ (w.shared.emee m).ready_evm_events_out) :
    (sets S).inv (Function.update G t { g with trace := { g.trace with
      held := g.trace.held.erase l } }) (w.setOwner l none) := by
  subst hg
  refine sets_update (hinv.1.setOwner_unlock hl) (hinv.2.place ?_ (fun _ hf => .inl hf)
    fun _ hfd => hfd)
  rintro m hkept hheld ⟨fd, hfd⟩
  refine ⟨hkept, (List.mem_erase_of_ne fun heq => ?_).mpr hheld⟩
  exact hout m heq.symm fd hfd

end

/-! ## What a program does -/

section Does

variable [DecidableEq T] [DecidableEq M] {α β : Type}

/-- The sets of `m` in `e` are made of those in `s`. -/
structure Narrowed (g : Place M) (m : M) (s : State M) (e : Emee) : Prop where
  interest : e.interest_ ⊆ (s.emee m).interest_
  ready : e.ready_ ⊆ e.interest_
  out : ∀ fd ∈ e.ready_evm_events_out, Listed m fd s
  kept : e.ready_evm_events_out ⊆ (s.emee m).ready_evm_events_out ∨ g.trace.kept = some m

omit [DecidableEq M] in
/-- Nothing more is given out. -/
theorem Narrowed.erase {s : State M} {interest ready : Finset Fd} {flag : Bool}
    (hinterest : interest ⊆ (s.emee m).interest_) (hready : ready ⊆ interest) :
    Narrowed g m s ⟨interest, ready, flag, (s.emee m).ready_evm_events_out⟩ :=
  ⟨hinterest, hready, fun _ hfd => .inr hfd, .inl (Finset.Subset.refl _)⟩

/-- With the place `g` in front of it and behind it: the program comes from `K` to `Q`, or it
throws with `E`. -/
abbrev Does (S : Setting M) (t : T) (g : Place M) (K : State M → Prop) (p : Code M α)
    (Q : α → State M → Prop) (E : State M → Prop) : Prop :=
  Triple (Orderly S) (sets S) t g K p g Q (Ends g E)

variable {p : Code M α} {Q : α → State M → Prop} {E : State M → Prop} {l : Mutex M}

namespace Does

theorem guarded (hl : ∀ m, l ≠ .int_mut_locked_by_get_ready_em_events_mutex_ m)
    (hkept : g.trace.kept = none) (hp : Does S t (g.lock l) K p Q E)
    (hQ : ∀ a, Stable (Undisturbed g) (Q a)) (hE : Stable (Undisturbed g) E) :
    Does S t g K (p.guarded l) Q E := by
  refine Triple.guarded (fun G w hg hinv hfree => ?_) (fun G w hg hinv => ?_)
    (fun _ _ h => Undisturbed.of_lock h) hp hQ hE
  · exact sets_lock hinv hg hfree fun m hm => absurd hm (hl m)
  · have hunlock := sets_unlock (l := l) hinv hg List.mem_cons_self fun m hm fd => by
      subst hm
      refine hinv.2.not_out hinv.1 (t := t) (by rw [hg]; exact List.mem_cons_self) ?_ fd
      rw [hg]
      show g.trace.kept ≠ some m
      rw [hkept]
      exact nofun
    simpa [Place.lock, Trace.lock] using hunlock

/-- A change of an event that matters nothing to the sets. -/
theorem setEvent {change : EmEvent M → EmEvent M}
    (hchange : ∀ e : EmEvent M, (change e).alive = e.alive ∧ (change e).loop_timer = e.loop_timer ∧
      (change e).event_meth_epoll_equiv_impl_ = e.event_meth_epoll_equiv_impl_)
    (hK : Lasting g K) : Does S t g K (setEvent fd change) (fun _ => K) E := by
  have hsame : ∀ s : State M, SameSets s (s.setEvent fd (change (s.event fd))) := by
    intro s
    have hall : ∀ fd',
        ((s.setEvent fd (change (s.event fd))).event fd').alive = (s.event fd').alive ∧
        ((s.setEvent fd (change (s.event fd))).event fd').loop_timer = (s.event fd').loop_timer ∧
        ((s.setEvent fd (change (s.event fd))).event fd').event_meth_epoll_equiv_impl_ =
          (s.event fd').event_meth_epoll_equiv_impl_ := by
      intro fd'
      by_cases hfd : fd' = fd
      · subst hfd
        rw [State.setEvent_self]
        exact hchange _
      · rw [s.setEvent_ne _ hfd]
        exact ⟨rfl, rfl, rfl⟩
    exact ⟨fun fd' => (hall fd').1, fun fd' => (hall fd').2.1, fun fd' => (hall fd').2.2,
      fun _ => rfl, fun _ => rfl, fun _ => rfl, rfl⟩
  refine Triple.modify (fun G w hg hinv hw => ⟨?_, fun u _ => ?_, ?_⟩) hK.stable
  · rw [← hg, Function.update_eq_self]
    exact ⟨hinv.1.change fun _ _ => rfl, hinv.2.same (hsame w.shared)⟩
  · exact Undisturbed.same (hsame w.shared) (G u)
  · exact hK.same _ _ (hsame w.shared) hw

/-- The sets of `m` change, with its `interest_mutex_`. -/
theorem change {e : State M → Emee} {k : State M → Code M α} {J : State M → Prop}
    {X : View (Place M) (State M) → Prop} (hlock : .interest_mutex_ m ∈ g.trace.held)
    (hflag : ∀ s, (e s).int_mut_locked_by_get_ready_em_events_ =
      (s.emee m).int_mut_locked_by_get_ready_em_events_)
    (he : ∀ G w, G t = g → (sets S).inv G w → K w.shared →
      Narrowed g m w.shared (e w.shared) ∧ J (w.shared.setEmee m (e w.shared)))
    (hJ : Stable (Undisturbed g) J)
    (hk : ∀ s, Triple (Orderly S) (sets S) t g J (k s) g' Q X) :
    Triple (Orderly S) (sets S) t g K (.act (fun s => s.setEmee m (e s)) k) g' Q X := by
  refine Triple.act (b := fun _ => g) (J := fun _ => J) (fun G w hg hinv hw => ?_) (fun _ => hJ) hk
  obtain ⟨hn, hknown⟩ := he G w hg hinv hw
  subst hg
  obtain ⟨hsorted, hothers⟩ := hinv.2.sets hinv.1 hlock hn.interest hn.ready hn.out hn.kept
  refine ⟨?_, hothers, hknown⟩
  rw [Function.update_eq_self]
  exact ⟨hinv.1.change (flag_setEmee hflag), hsorted⟩

/-- They change, and the program goes on with what it has found. -/
theorem sets {e : State M → Emee} {r : State M → α} {J : State M → Prop}
    {X : View (Place M) (State M) → Prop} (hlock : .interest_mutex_ m ∈ g.trace.held)
    (hflag : ∀ s, (e s).int_mut_locked_by_get_ready_em_events_ =
      (s.emee m).int_mut_locked_by_get_ready_em_events_)
    (he : ∀ G w, G t = g → (sets S).inv G w → K w.shared →
      Narrowed g m w.shared (e w.shared) ∧ J (w.shared.setEmee m (e w.shared)))
    (hJ : Stable (Undisturbed g) J) :
    Triple (Orderly S) (EpollEquiv.sets S) t g K
      (.act (fun s => s.setEmee m (e s)) fun s => .pure (r s)) g (fun _ => J) X :=
  change hlock hflag he hJ fun _ => Triple.pure fun _ hs => hs

/-- The body of a function that stands on the stack, whose event is in use. -/
theorem within {f : Call M} (hnames : f.names? = none) (hpolls : f.polls? = none)
    (hevent : ∀ fd ∈ f.event?, ∃ f' ∈ g.trace.stack, fd ∈ f'.event? ∧ fd ∉ f'.closes?)
    (hp : Does S t (g.push f) K p Q E) (hQ : ∀ a, Stable (Undisturbed g) (Q a))
    (hE : Stable (Undisturbed g) E) : Does S t g K (p.within f) Q E := by
  have hpoll : ∀ m, f ≠ .poll m := by
    rintro m rfl
    cases hpolls
  refine Triple.within (fun G w hg hinv hmet => ?_) (fun G w hg hinv => ?_)
    (fun _ _ h => Undisturbed.of_push h) hp hQ hE
  · subst hg
    refine sets_update (hinv.1.setStack_push hmet.1) (hinv.2.place (fun _ hk hh _ => ⟨hk, hh⟩)
      (fun f' hf' => ?_) fun _ hfd => hfd)
    rcases List.mem_cons.mp hf' with rfl | hf'
    · refine .inr ⟨fun fd hfd => ?_, fun p hp => ?_, fun m hm => ?_, fun u hu f'' hf'' => ?_⟩
      · obtain ⟨f₁, hf₁, hfd₁, hno⟩ := hevent fd hfd
        obtain ⟨htimer, hid, halive⟩ := hinv.2.used t f₁ hf₁ fd hfd₁
        exact ⟨htimer, hid, halive.resolve_right hno⟩
      · rw [hnames] at hp
        cases hp
      · rw [hpolls] at hm
        cases hm
      · exact hmet.2 u hu f'' (by rw [hinv.1.stack u]; exact hf'')
    · exact .inl hf'
  · have htail := hinv.1.setStack_tail (t := t) (g := g.trace) hpoll (by rw [hg]; rfl)
    refine sets_update htail (hinv.2.place (fun m hk hh _ => ?_) (fun f' hf' => .inl ?_)
      fun fd hfd => ?_)
    · rw [hg] at hk hh
      exact ⟨hk, hh⟩
    · rw [hg]
      exact List.mem_cons_of_mem f hf'
    · rw [hg]
      exact hfd

end Does

/-! ## Programs that do nothing to the sets -/

/-- What the thread knows in front of the program it knows behind it. -/
def Quiet (S : Setting M) (t : T) (g : Place M) (p : Code M α) : Prop :=
  ∀ K : State M → Prop, Lasting g K → Does S t g K p (fun _ => K) K

namespace Quiet

/-- Less may be known where the program throws. -/
theorem does (h : Quiet S t g p) (hK : Lasting g K) (hE : ∀ s, K s → E s) :
    Does S t g K p (fun _ => K) E := (h K hK).ends hE

theorem pure {a : α} : Quiet S t g (Pure.pure a : Code M α) := fun _ _ => Triple.pure fun _ hs => hs

theorem throw {what : String} : Quiet S t g (.throw what : Code M α) :=
  fun _ _ => Triple.throw fun _ hs => hs

theorem bind {f : α → Code M β} (hp : Quiet S t g p) (hf : ∀ a, Quiet S t g (f a)) :
    Quiet S t g (p >>= f) := fun K hK => Triple.bind (hp K hK) fun a => hf a K hK

theorem ite {c : Prop} [Decidable c] {q : Code M α} (hp : c → Quiet S t g p)
    (hq : ¬c → Quiet S t g q) : Quiet S t g (if c then p else q) :=
  fun K hK => Triple.ite (fun hc => hp hc K hK) fun hc => hq hc K hK

theorem read {f : State M → α} : Quiet S t g (.read f) :=
  fun _ hK => Triple.read (fun _ _ _ _ hs => hs) fun _ => hK.stable

theorem event : Quiet S t g (event fd : Code M _) := read

theorem ask : Quiet S t g (.ask : Code M Answer) :=
  fun _ _ => Triple.ask fun _ _ _ _ _ _ _ hs => hs

theorem setEvent {change : EmEvent M → EmEvent M}
    (hchange : ∀ e : EmEvent M, (change e).alive = e.alive ∧ (change e).loop_timer = e.loop_timer ∧
      (change e).event_meth_epoll_equiv_impl_ = e.event_meth_epoll_equiv_impl_) :
    Quiet S t g (setEvent fd change) := fun _ hK => Does.setEvent hchange hK

theorem guarded (hl : ∀ m, l ≠ .int_mut_locked_by_get_ready_em_events_mutex_ m)
    (hkept : g.trace.kept = none) (hp : Quiet S t (g.lock l) p) : Quiet S t g (p.guarded l) :=
  fun K hK => Does.guarded hl hkept (hp K (hK.mono fun _ _ h => h.of_lock)) (fun _ => hK.stable)
    hK.stable

theorem within {f : Call M} (hnames : f.names? = none) (hpolls : f.polls? = none)
    (hevent : f.event? = none) (hp : Quiet S t (g.push f) p) : Quiet S t g (p.within f) :=
  fun K hK => Does.within hnames hpolls (fun fd hfd => by rw [hevent] at hfd; cases hfd)
    (hp K (hK.mono fun _ _ h => h.of_push)) (fun _ => hK.stable) hK.stable

end Quiet

/-! ## Programs behind which nothing is known -/

/-- The program leaves the sets in order. -/
abbrev Safe (S : Setting M) (t : T) (g : Place M) (p : Code M α) : Prop :=
  Does S t g (fun _ => True) p (fun _ _ => True) fun _ => True

namespace Safe

theorem quiet (h : Quiet S t g p) : Safe S t g p := h _ .const

theorem bind {f : α → Code M β} (hp : Safe S t g p) (hf : ∀ a, Safe S t g (f a)) :
    Safe S t g (p >>= f) := Triple.bind hp hf

theorem ite {c : Prop} [Decidable c] {q : Code M α} (hp : c → Safe S t g p)
    (hq : ¬c → Safe S t g q) : Safe S t g (if c then p else q) := Triple.ite hp hq

theorem pure {a : α} : Safe S t g (Pure.pure a : Code M α) := quiet Quiet.pure

theorem event : Safe S t g (event fd : Code M _) := quiet Quiet.event

theorem setEvent {change : EmEvent M → EmEvent M}
    (hchange : ∀ e : EmEvent M, (change e).alive = e.alive ∧ (change e).loop_timer = e.loop_timer ∧
      (change e).event_meth_epoll_equiv_impl_ = e.event_meth_epoll_equiv_impl_) :
    Safe S t g (EpollEquiv.setEvent fd change) := quiet (Quiet.setEvent hchange)

theorem guarded (hl : ∀ m, l ≠ .int_mut_locked_by_get_ready_em_events_mutex_ m)
    (hkept : g.trace.kept = none) (hp : Safe S t (g.lock l) p) : Safe S t g (p.guarded l) :=
  Does.guarded hl hkept hp (fun _ => .const) .const

/-- What is known behind a program need not be. -/
theorem of_does (h : Does S t g K p Q E) (hK : ∀ s, K s) : Safe S t g p :=
  h.mono (fun s _ => hK s) (fun _ _ _ => trivial) fun _ hv => ⟨hv.1, fun _ _ => trivial⟩

end Safe

end Does

end Pistache.Eventmeth.EpollEquiv
