import Pistache.Eventmeth.SetRules

/-!
# The functions and the interest sets

What each function but `poll` does to the events and the sets.

* `Does.attach`, `Does.ctlEx` — an event comes into the sets of the `EventMethEpollEquiv` that it
  belongs to.
* `Safe.renewEv`, `Safe.emEventTmrFd_settime` — so it does when it is renewed, or set.
* `Safe.closeEvent` — a deleted event is in no set.
* `Does.eventCallbackFn` — a callback leaves the thread's own timer where it is.
-/

set_option autoImplicit false

namespace Pistache.Eventmeth.EpollEquiv

open Locked

variable {M T : Type} [DecidableEq M] [DecidableEq T] {S : Setting M} {t : T} {g : Place M}
variable {m m' : M} {fd : Fd} {E : State M → Prop}

/-! ## Facts about one event -/

/-- The thread names `m` for the event, and nothing else for any other. -/
structure Naming (g : Place M) (m : M) (fd : Fd) : Prop where
  names : g.Names m fd
  only : ∀ f ∈ g.trace.stack, ∀ p ∈ f.names?, p = (fd, m)
  polls : fd ∈ g.timer → .poll m ∈ g.trace.stack

/-- The thread may put the event into the sets of `m`. -/
def May (g : Place M) (m : M) (fd : Fd) : Prop := Naming g m fd ∨ g.Follows fd

/-- The event, if it is the thread's `loop_timer_eme`, is in no set. -/
def Free (g : Place M) (fd : Fd) (s : State M) : Prop := fd ∈ g.timer → Away none fd s

/-- What is known in front of a `ctl`. -/
def Known (g : Place M) (m : M) (fd : Fd) (s : State M) : Prop :=
  Free g fd s ∧ (Naming g m fd ∨ Attached m fd s)

/-- What is known behind it, by whether it has succeeded. -/
def Done (g : Place M) (m : M) (fd : Fd) (succeeded : Bool) (s : State M) : Prop :=
  (succeeded = false → Free g fd s) ∧ (succeeded = true → Attached m fd s)

/-- Of the `EventMethEpollEquiv`s in `ms` none but `m` has the event in its sets. -/
def Clear (ms : List M) (m : M) (fd : Fd) (s : State M) : Prop :=
  ∀ m' ∈ ms, m' ≠ m → ¬Listed m' fd s

omit [DecidableEq M] in
theorem May.lock (h : May g m fd) {l : Mutex M} : May (g.lock l) m fd :=
  h.imp_left fun hn => ⟨hn.names, hn.only, hn.polls⟩

omit [DecidableEq M] in
theorem May.names (h : May g m fd) : g.Names m fd ∨ g.Follows fd := h.imp_left Naming.names

omit [DecidableEq M] in
theorem Free.lasting : Lasting g (Free g fd) := .imp fun h => .away (.inr h)

omit [DecidableEq M] in
theorem Clear.lasting (h : g.Names m fd) (ms : List M) : Lasting g (Clear ms m fd) :=
  .all fun _ => .imp fun _ => .imp fun hne => .not_listed h hne

omit [DecidableEq M] in
theorem Known.lasting (h : May g m fd) : Lasting g (Known g m fd) :=
  Free.lasting.and (.or_const fun hno => .attached (.inr (h.resolve_left hno)))

omit [DecidableEq M] in
theorem Done.lasting (h : May g m fd) (succeeded : Bool) : Lasting g (Done g m fd succeeded) :=
  .and (.imp fun _ => Free.lasting) (.imp fun _ => .attached h.names)

omit [DecidableEq M] [DecidableEq T] in
theorem Naming.live {G : T → Place M} {s : State M} (h : Naming g m fd) (hs : Sorted S G s)
    (hg : G t = g) : m ∈ S.emee_cptr_set_ := by
  subst hg
  rcases h.names with ⟨f, hf, hfd⟩ | htimer
  · exact hs.named t f hf _ hfd
  · exact hs.polled t _ (h.polls htimer) m rfl

omit [DecidableEq M] [DecidableEq T] in
theorem Clear.away {G : T → Place M} {s : State M} (h : Clear S.emee_cptr_set_ m fd s)
    (hs : Sorted S G s) : Away (some m) fd s := fun m' hne hl =>
  h m' (hs.live m' fd (hs.listed m' fd hl).2) (fun heq => hne (congrArg some heq)) hl

omit [DecidableEq M] [DecidableEq T] in
/-- An event is in no sets but those of its own `EventMethEpollEquiv`. -/
theorem Attached.away {G : T → Place M} {s : State M} (h : Attached m fd s) (hs : Sorted S G s) :
    Away (some m) fd s := fun m' hne hl => hne ((hs.listed m' fd hl).2.symm.trans h)

omit [DecidableEq M] [DecidableEq T] in
/-- With `interest_mutex_`, and nothing kept for the caller of `getReadyEmEvents`. -/
theorem not_out_of_lock {G : T → Place M} {w : World T (Mutex M) (Call M) (State M)}
    (hinv : (sets S).inv G w) (hg : G t = g.lock (.interest_mutex_ m)) (hkept : g.trace.kept = none)
    (fd : Fd) : fd ∉ (w.shared.emee m).ready_evm_events_out := by
  refine hinv.2.not_out hinv.1 (t := t) (by rw [hg]; exact List.mem_cons_self) ?_ fd
  rw [hg]
  show g.trace.kept ≠ some m
  rw [hkept]
  exact nofun

/-! ## Quiet programs -/

namespace Quiet

theorem setFlags {flgs : Evm} : Quiet S t g (setFlags S fd flgs) :=
  bind event fun _ => ite (fun _ => throw) fun _ => setEvent fun _ => ⟨rfl, rfl, rfl⟩

theorem prepareEv {events : Evm} : Quiet S t g (prepareEv S fd events) := by
  have hev : ∀ b : Bool, Quiet S t g (EpollEquiv.setEvent fd ({ · with ev_ := b }) : Code M Unit) :=
    fun _ => setEvent fun _ => ⟨rfl, rfl, rfl⟩
  refine bind event fun e => ite (fun _ => ?_) fun _ => ite (fun _ => ?_) fun _ => pure
  · refine bind setFlags fun _ => bind event fun _ => ite (fun _ => pure) fun _ => ?_
    exact bind ask fun _ => ite (fun _ => bind (hev true) fun _ => pure) fun _ => pure
  · refine bind (hev false) fun _ => bind ask fun _ => ite (fun _ => ?_) fun _ => throw
    exact bind (hev true) fun _ => bind setFlags fun _ => pure

theorem activate (hkept : g.trace.kept = none) :
    Quiet S t g (EmEventCtr.activate fd : Code M Unit) :=
  bind event fun _ => ite (fun _ => guarded nofun hkept pure) fun _ => pure

theorem findFdInInterest (hkept : g.trace.kept = none) :
    Quiet S t g (findFdInInterest m fd : Code M Bool) := guarded nofun hkept read

theorem scan (hkept : g.trace.kept = none) : ∀ ms : List M, Quiet S t g (scan fd ms)
  | [] => pure
  | _ :: ms => bind (findFdInInterest hkept) fun _ => ite (fun _ => pure) fun _ => scan hkept ms

theorem findEmEventInAnInterestSet (hkept : g.trace.kept = none) :
    Quiet S t g (findEmEventInAnInterestSet S fd) :=
  guarded nofun hkept (scan (g := g.lock _) hkept _)

theorem close : Quiet S t g (EmEvent.close fd : Code M Bool) :=
  bind event fun _ => bind (setEvent fun _ => ⟨rfl, rfl, rfl⟩) fun _ =>
    ite (fun _ => bind ask fun _ => pure) fun _ => pure

end Quiet

/-! ## `ctl` -/

namespace Does

/-- An event gets the `EventMethEpollEquiv` that the thread names for it, and may have had it. -/
theorem attachTo (h : Naming g m fd) :
    Does S t g (fun s => Free g fd s ∧ (Clear S.emee_cptr_set_ m fd s ∨ Attached m fd s))
      (EpollEquiv.setEvent fd ({ · with event_meth_epoll_equiv_impl_ := some m }) : Code M Unit)
      (fun _ s => Free g fd s ∧ Attached m fd s) E := by
  refine Triple.modify (fun G w hg hinv hw => ?_)
    (Free.lasting.and (.attached (.inl h.names))).stable
  have haway : Away (some m) fd w.shared :=
    hw.2.elim (fun hclear => hclear.away hinv.2) fun hatt => hatt.away hinv.2
  obtain ⟨hsorted, hothers⟩ := hinv.2.attach hinv.1 (t := t) (hg ▸ h.names) (hg ▸ h.only)
    (h.live hinv.2 hg) haway
  refine ⟨?_, hothers, hw.1, ?_⟩
  · rw [← hg, Function.update_eq_self]
    exact ⟨hinv.1.change fun _ _ => rfl, hsorted⟩
  · simp [Attached]

/-- Whether the event is of interest to `m'`. -/
theorem findFdInInterest (h : Naming g m fd) (hkept : g.trace.kept = none) (ms : List M) :
    Does S t g (fun s => Free g fd s ∧ Clear ms m fd s)
      (EpollEquiv.findFdInInterest m' fd : Code M Bool)
      (fun found s => Free g fd s ∧ Clear ms m fd s ∧ (found = false → Clear [m'] m fd s) ∧
        (found = true → m' = m → Attached m fd s)) (Free g fd) := by
  have hpost : ∀ found : Bool, Lasting g fun s => Free g fd s ∧ Clear ms m fd s ∧
      (found = false → Clear [m'] m fd s) ∧ (found = true → m' = m → Attached m fd s) := fun _ =>
    Free.lasting.and ((Clear.lasting h.names ms).and (.and (.imp fun _ => Clear.lasting h.names _)
      (.imp fun _ => .imp fun _ => .attached (.inl h.names))))
  refine Does.guarded nofun hkept (Triple.read (fun G w hg hinv hw => ?_) fun found =>
    ((hpost found).mono fun _ _ hs => hs.of_lock).stable) (fun found => (hpost found).stable)
    Free.lasting.stable
  refine ⟨hw.1, hw.2, fun hfound m₁ hm₁ _ hl => ?_, fun hfound hmm => ?_⟩
  · rw [List.mem_singleton] at hm₁
    subst hm₁
    rcases hl with hin | hout
    · simp [hin] at hfound
    · exact not_out_of_lock hinv hg hkept fd hout
  · subst hmm
    exact (hinv.2.listed m' fd (.inl (by simpa using hfound))).2

theorem scan (h : Naming g m fd) (hkept : g.trace.kept = none) : ∀ ms done : List M,
    Does S t g (fun s => Free g fd s ∧ Clear done m fd s) (EpollEquiv.scan fd ms)
      (fun owning s => Free g fd s ∧ (owning = none → Clear (done ++ ms) m fd s) ∧
        (owning = some m → Attached m fd s)) (Free g fd)
  | [], done => Triple.pure fun s hs => ⟨hs.1, fun _ => by simpa using hs.2, nofun⟩
  | m' :: ms, done => by
    refine Triple.bind (findFdInInterest h hkept done) fun found => Triple.ite (fun hfound => ?_)
      fun hfound => ?_
    · refine Triple.pure fun s hs => ⟨hs.1, nofun, fun hmm => ?_⟩
      exact hs.2.2.2 hfound (Option.some.inj hmm)
    · refine ((scan h hkept ms (done ++ [m'])).pre fun s hs => ⟨hs.1, fun m₁ hm₁ => ?_⟩).post
        fun owning s hs => by simpa using hs
      have hnot : Clear [m'] m fd s := hs.2.2.1 (by simpa using hfound)
      rcases List.mem_append.mp hm₁ with hm₁ | hm₁
      · exact hs.2.1 m₁ hm₁
      · exact hnot m₁ hm₁

theorem findEmEventInAnInterestSet (h : Naming g m fd) (hkept : g.trace.kept = none) :
    Does S t g (Free g fd) (EpollEquiv.findEmEventInAnInterestSet S fd)
      (fun owning s => Free g fd s ∧ (owning = none → Clear S.emee_cptr_set_ m fd s) ∧
        (owning = some m → Attached m fd s)) (Free g fd) := by
  refine Does.guarded nofun hkept ((scan (g := g.lock _) ⟨h.names, h.only, h.polls⟩ hkept _ []).pre
    fun s hs => ⟨hs, fun _ hm => nomatch hm⟩) (fun owning => ?_) Free.lasting.stable
  exact (Free.lasting.and (.and (.imp fun _ => Clear.lasting h.names _)
    (.imp fun _ => .attached (.inl h.names)))).stable

/-- The `EventMethEpollEquiv` of an event, as `EmEvent::ctl` reads it. -/
theorem readEmee (h : May g m fd) :
    Does S t g (Known g m fd) (EpollEquiv.event fd : Code M _)
      (fun e s => Free g fd s ∧ (e.event_meth_epoll_equiv_impl_ = some m → Attached m fd s) ∧
        (e.event_meth_epoll_equiv_impl_ = some m ∨ (Naming g m fd ∧
          (e.event_meth_epoll_equiv_impl_ = none → Clear S.emee_cptr_set_ m fd s))))
      (Free g fd) := by
  refine Triple.read (fun G w hg hinv hw => ⟨hw.1, fun heq => heq, ?_⟩) fun e => ?_
  · rcases hw.2 with hn | hatt
    · refine .inr ⟨hn, fun hnone m' _ _ hl => ?_⟩
      have hatt := (hinv.2.listed m' fd hl).2
      rw [Attached, hnone] at hatt
      cases hatt
    · exact .inl hatt
  · exact (Free.lasting.and (.and (.imp fun _ => .attached h.names) (.or_const fun _ =>
      .const_and fun hn => .imp fun _ => Clear.lasting hn.names _))).stable

theorem attach (h : May g m fd) (hkept : g.trace.kept = none) :
    Does S t g (Known g m fd) (EpollEquiv.attach S m fd)
      (fun _ s => Free g fd s ∧ Attached m fd s) (Free g fd) := by
  refine Triple.bind (readEmee h) fun e => ?_
  cases he : e.event_meth_epoll_equiv_impl_ with
  | none =>
    refine Triple.known (c := Naming g m fd) (fun s hs => (hs.2.2.resolve_left nofun).1)
      fun hn => ?_
    exact (attachTo hn).pre fun s hs => ⟨hs.1, .inl ((hs.2.2.resolve_left nofun).2 rfl)⟩
  | some prior_emee =>
    refine Triple.ite (fun hprior => ?_) fun hprior => ?_
    · exact Triple.pure fun s hs => ⟨hs.1, hs.2.1 (by rw [hprior])⟩
    have hne : some prior_emee ≠ some m := fun heq => hprior (Option.some.inj heq)
    refine Triple.known (c := Naming g m fd) (fun s hs => (hs.2.2.resolve_left hne).1) fun hn => ?_
    refine Triple.bind ((findEmEventInAnInterestSet hn hkept).pre fun s hs => hs.1) fun owning => ?_
    cases owning with
    | none => exact (attachTo hn).pre fun s hs => ⟨hs.1, .inl (hs.2.1 rfl)⟩
    | some owning_emee =>
      refine Triple.ite (fun howning => ?_) fun _ => Triple.throw fun s hs => hs.1
      exact (attachTo hn).pre fun s hs => ⟨hs.1, .inr (hs.2.2 (by rw [howning]))⟩

theorem emEvent_ctl (h : May g m fd) (hkept : g.trace.kept = none) {op : EvCtlAction}
    {events : Evm} :
    Does S t g (Known g m fd) (EmEvent.ctl S op m fd events)
      (fun _ s => Free g fd s ∧ Attached m fd s) (Free g fd) := by
  have hrest : Quiet S t g (do
      if op = .Del then pure (decide ((← .ask) = .ok))
      else if ← EpollEquiv.prepareEv S fd events then pure (decide ((← .ask) = .ok))
      else pure false : Code M Bool) :=
    Quiet.ite (fun _ => Quiet.bind Quiet.ask fun _ => Quiet.pure) fun _ =>
      Quiet.bind Quiet.prepareEv fun _ =>
        Quiet.ite (fun _ => Quiet.bind Quiet.ask fun _ => Quiet.pure) fun _ => Quiet.pure
  exact Triple.bind (attach h hkept) fun _ =>
    hrest.does (Free.lasting.and (.attached h.names)) fun _ hs => hs.1

theorem emEventCtr_ctl (h : May g m fd) (hkept : g.trace.kept = none) {op : EvCtlAction}
    {events : Evm} :
    Does S t g (Known g m fd) (EmEventCtr.ctl S op m fd events)
      (fun _ s => Free g fd s ∧ Attached m fd s) (Free g fd) := by
  refine Triple.bind (emEvent_ctl h hkept) fun _ => Triple.ite (fun _ => ?_) fun _ =>
    Triple.pure fun _ hs => hs
  exact (Quiet.bind (Quiet.activate hkept) fun _ => Quiet.pure).does
    (Free.lasting.and (.attached h.names)) fun _ hs => hs.1

theorem insertInterest (h : May g m fd) (hlock : .interest_mutex_ m ∈ g.trace.held) :
    Does S t g (fun s => Free g fd s ∧ Attached m fd s)
      (EpollEquiv.insertInterest m fd : Code M Bool) (Done g m fd) E := by
  refine Triple.act (b := fun _ => g)
    (J := fun s s' => Attached m fd s' ∧ (fd ∈ (s.emee m).interest_ → Free g fd s'))
    (fun G w hg hinv hw => ?_) (fun s => ?_) fun s => Triple.pure fun s' hs' => ?_
  · subst hg
    obtain ⟨hsorted, hothers⟩ := hinv.2.enlist hinv.1 hlock h.names hw.2
    refine ⟨?_, hothers, hw.2, fun hin htimer => ?_⟩
    · rw [Function.update_eq_self]
      exact ⟨hinv.1.change (flag_setEmee fun _ => rfl), hsorted⟩
    · -- a `loop_timer_eme` that is in no set is inserted
      exact absurd (.inl hin) (hw.1 htimer m nofun)
  · exact ((Lasting.attached h.names).and (.imp fun _ => Free.lasting)).stable
  · exact ⟨fun hno => hs'.2 (by simpa using hno), fun _ => hs'.1⟩

theorem updateInterest (h : May g m fd) (hkept : g.trace.kept = none) {op : EvCtlAction}
    {found : Bool} :
    Does S t g (fun s => Free g fd s ∧ Attached m fd s)
      (EpollEquiv.updateInterest op m fd found : Code M Bool) (Done g m fd) (Free g fd) := by
  refine Does.guarded nofun hkept ?_ (fun ok => (Done.lasting h ok).stable) Free.lasting.stable
  have hadd : Does S t (g.lock (.interest_mutex_ m)) (fun s => Free g fd s ∧ Attached m fd s)
      (if found then pure true else EpollEquiv.insertInterest m fd : Code M Bool) (Done g m fd)
      (Free g fd) :=
    Triple.ite (fun _ => Triple.pure fun _ hs => ⟨nofun, fun _ => hs.2⟩) fun _ =>
      insertInterest h.lock List.mem_cons_self
  cases op with
  | Add => exact hadd
  | Mod => exact hadd
  | Del =>
    have herase : Does S t ((g.lock (.interest_mutex_ m)).lock (.ready_mutex_ m)) (Attached m fd)
        (.modify fun s => if found then EpollEquiv.eraseBoth m fd s
          else s.setEmee m { s.emee m with ready_ := (s.emee m).ready_.erase fd } : Code M Unit)
        (fun _ => Attached m fd) (Free g fd) := by
      have hstable : Stable (Undisturbed ((g.lock (.interest_mutex_ m)).lock (.ready_mutex_ m)))
          (Attached m fd) := (Lasting.attached h.lock.lock.names).stable
      have hlock : .interest_mutex_ m ∈ ((g.lock (.interest_mutex_ m)).lock
          (.ready_mutex_ m)).trace.held := List.mem_cons_of_mem _ List.mem_cons_self
      cases found with
      | true =>
        refine Does.sets hlock (fun _ => rfl) (fun G w _ hinv hw => ⟨?_, hw⟩) hstable
        exact .erase (Finset.erase_subset _ _) (Finset.erase_subset_erase _ (hinv.2.ready m))
      | false =>
        refine Does.sets hlock (fun _ => rfl) (fun G w _ hinv hw => ⟨?_, hw⟩) hstable
        exact .erase (Finset.Subset.refl _) ((Finset.erase_subset _ _).trans (hinv.2.ready m))
    have hguarded := Does.guarded (g := g.lock _) (l := .ready_mutex_ m) nofun hkept herase
      (fun _ => (Lasting.attached h.lock.names).stable) (Free.lasting (g := g.lock _)).stable
    exact Triple.bind (hguarded.pre fun _ hs => hs.2) fun _ =>
      Triple.pure fun _ hs => ⟨nofun, fun _ => hs⟩

theorem ctlEx (h : May g m fd) (hkept : g.trace.kept = none) {op : EvCtlAction} {events : Evm}
    {forceEmEventCtlOnly : Bool} :
    Does S t g (Known g m fd) (EpollEquiv.ctlEx S op m fd events forceEmEventCtlOnly)
      (Done g m fd) (Free g fd) := by
  have hcheck : Quiet S t g (checkInterest op m fd : Code M _) :=
    Quiet.guarded nofun hkept Quiet.read
  refine Triple.bind (hcheck.does (Known.lasting h) fun _ hs => hs.1) fun found =>
    Triple.ite (fun _ => ?_) fun _ => Triple.pure fun _ hs => ⟨fun _ => hs.1, nofun⟩
  refine Triple.bind (Triple.ite (fun _ => emEvent_ctl h hkept) fun _ => emEventCtr_ctl h hkept)
    fun ok => Triple.ite (fun _ => updateInterest h hkept) fun _ =>
      Triple.pure fun _ hs => ⟨fun _ => hs.1, nofun⟩

theorem ctl (h : May g m fd) (hkept : g.trace.kept = none) {op : EvCtlAction} {events : Evm} :
    Does S t g (Known g m fd) (EpollEquiv.ctl S op m fd events) (Done g m fd) (Free g fd) := by
  refine Triple.bind (ctlEx h hkept) fun ok => ?_
  cases ok with
  | true =>
    exact Triple.bind (Does.setEvent (fun _ => ⟨rfl, rfl, rfl⟩) (Done.lasting h true)) fun _ =>
      Triple.pure fun _ hs => hs
  | false => exact Triple.pure fun _ hs => hs

end Does

/-! ## Counters -/

/-- A call of the thread works on the event, and does not close it. -/
def InUse (g : Place M) (fd : Fd) : Prop := ∃ f ∈ g.trace.stack, fd ∈ f.event? ∧ fd ∉ f.closes?

/-- The event belongs to its `EventMethEpollEquiv`, if it has one. -/
def Belongs (emee : Option M) (fd : Fd) (s : State M) : Prop := ∀ m ∈ emee, Attached m fd s

omit [DecidableEq M] in
theorem Belongs.lasting (h : g.Follows fd) (emee : Option M) : Lasting g (Belongs emee fd) :=
  .all fun _ => .imp fun _ => .attached (.inr h)

omit [DecidableEq M] in
/-- Without a `loop_timer_eme` every event may be put into the sets of what it belongs to. -/
theorem Attached.known {s : State M} (h : Attached m fd s) (htimer : g.timer = none) :
    Known g m fd s := ⟨fun hin => absurd (htimer ▸ hin) nofun, .inr h⟩

namespace Does

/-- The `EventMethEpollEquiv` of an event is one of those that there are. -/
theorem getEventMethEpollEquivImpl {Q : Option M → State M → Prop} (hkept : g.trace.kept = none)
    (hQ : ∀ emee, Lasting g (Q emee))
    (h : ∀ (G : T → Place M) (w : World T (Mutex M) (Call M) (State M)), G t = g →
      (EpollEquiv.sets S).inv G w → Q (w.shared.event fd).event_meth_epoll_equiv_impl_ w.shared) :
    Does S t g (fun _ => True) (EpollEquiv.getEventMethEpollEquivImpl S fd) Q fun _ => True := by
  have hread : Does S t g (fun _ => True) (EpollEquiv.event fd : Code M _)
      (fun e s => (∀ m ∈ e.event_meth_epoll_equiv_impl_, m ∈ S.emee_cptr_set_) ∧
        Q e.event_meth_epoll_equiv_impl_ s) fun _ => True :=
    Triple.read (fun G w hg hinv _ => ⟨fun m hm => hinv.2.live m fd hm, h G w hg hinv⟩) fun _ =>
      (Lasting.const.and (hQ _)).stable
  refine Triple.bind hread fun e => ?_
  cases he : e.event_meth_epoll_equiv_impl_ with
  | none => exact Triple.pure fun _ hs => hs.2
  | some m =>
    refine Triple.known (c := m ∈ S.emee_cptr_set_) (fun _ hs => hs.1 m rfl) fun hm => ?_
    have hfound : Does S t g (Q (some m)) (getEventMethEpollEquivImplFromEmeeSet S m)
        (fun found s => found = true ∧ Q (some m) s) fun _ => True :=
      Does.guarded nofun hkept (Triple.pure fun _ hs => ⟨by simpa using hm, hs⟩)
        (fun _ => (Lasting.const.and (hQ _)).stable) .const
    refine Triple.bind (hfound.pre fun _ hs => hs.2) fun found => Triple.ite
      (fun _ => Triple.pure fun _ hs => hs.2) fun hno => ?_
    exact Triple.absurd (fun _ hs => hno hs.1) _

theorem renewCtlDel (h : g.Follows fd) (htimer : g.timer = none) (hkept : g.trace.kept = none)
    {emee : Option M} :
    Does S t g (Belongs emee fd) (EpollEquiv.renewCtlDel S fd emee) (fun _ => Belongs emee fd)
      fun _ => True := by
  cases emee with
  | none => exact Triple.pure fun _ hs => hs
  | some m =>
    refine Triple.bind ((Quiet.findFdInInterest hkept).does (Belongs.lasting h _)
      fun _ _ => trivial) fun _ => Triple.ite (fun _ => ?_) fun _ => Triple.pure fun _ hs => hs
    refine Triple.bind (((ctlEx (.inr h) hkept).pre fun s hs => (hs m rfl).known htimer).ends
      fun _ _ => trivial) fun ok => Triple.ite (fun hok => ?_) fun _ =>
        Triple.throw fun _ _ => trivial
    refine Triple.pure fun s hs m' hm' => ?_
    cases hm'
    exact hs.2 hok

theorem renewDel (h : g.Follows fd) (htimer : g.timer = none) (hkept : g.trace.kept = none)
    {emee : Option M} :
    Does S t g (Belongs emee fd) (EpollEquiv.renewDel S fd emee) (fun _ => Belongs emee fd)
      fun _ => True := by
  refine Triple.bind (Quiet.event.does (Belongs.lasting h _) fun _ _ => trivial) fun e =>
    Triple.ite (fun _ => ?_) fun _ => Triple.pure fun _ hs => hs
  refine Triple.bind (renewCtlDel h htimer hkept) fun _ =>
    Triple.bind (Does.setEvent (fun _ => ⟨rfl, rfl, rfl⟩) (Belongs.lasting h _)) fun _ =>
      Triple.pure fun _ hs => hs

theorem renewAdd (h : g.Follows fd) (htimer : g.timer = none) (hkept : g.trace.kept = none)
    {emee : Option M} {old_flags : Evm} {ev_in_emee : Bool} :
    Does S t g (Belongs emee fd) (EpollEquiv.renewAdd S fd emee old_flags ev_in_emee)
      (fun _ _ => True) fun _ => True := by
  unfold EpollEquiv.renewAdd
  split
  · next m =>
    refine Triple.bind (((ctlEx (.inr h) hkept).pre fun s hs => (hs m rfl).known htimer).ends
      fun _ _ => trivial) fun ok => Triple.ite (fun _ => ?_) fun _ =>
        Triple.throw fun _ _ => trivial
    have hrest : Safe S t g (do
        if (← EpollEquiv.event fd).ev_ then pure () else Prog.throw "ev_ null" : Code M Unit) :=
      Safe.bind Safe.event fun _ => Safe.ite (fun _ => Safe.pure) fun _ => Safe.quiet Quiet.throw
    exact hrest.pre fun _ _ => trivial
  · exact Triple.pure fun _ _ => trivial

end Does

namespace Safe

theorem renewEv (huse : InUse g fd) (htimer : g.timer = none) (hkept : g.trace.kept = none) :
    Safe S t g (EpollEquiv.renewEv S fd) := by
  have hf : (g.push (.renewEv fd)).Follows fd := ⟨_, List.mem_cons_self, rfl⟩
  refine Does.within rfl rfl (fun fd' hfd' => ?_) ?_ (fun _ => .const) .const
  · cases hfd'
    exact huse
  refine Triple.bind event fun _ => ?_
  refine Triple.bind (Does.getEventMethEpollEquivImpl hkept (fun emee => Belongs.lasting hf emee)
    fun G w _ _ m hm => hm) fun emee => ?_
  refine Triple.bind (Does.renewDel hf htimer hkept) fun _ =>
    Triple.bind (Does.renewAdd hf htimer hkept) fun _ => Triple.bind event fun e => ?_
  exact Safe.ite (fun _ => Safe.ite (fun _ => pure) fun _ => quiet Quiet.throw) fun _ => pure

theorem notReadable (huse : InUse g fd) (htimer : g.timer = none) (hkept : g.trace.kept = none)
    {old_counter_val : UInt64} : Safe S t g (EpollEquiv.notReadable S fd old_counter_val) := by
  refine bind event fun _ => ite (fun _ => ?_) fun _ => pure
  exact ite (fun _ => renewEv huse htimer hkept) fun _ => ite (fun _ => pure) fun _ => pure

theorem resetCounterValMutexAlreadyLocked (huse : InUse g fd) (htimer : g.timer = none)
    (hkept : g.trace.kept = none) :
    Safe S t g (EpollEquiv.resetCounterValMutexAlreadyLocked S fd) := by
  refine bind event fun _ => ite (fun _ => pure) fun _ => ?_
  exact bind (setEvent fun _ => ⟨rfl, rfl, rfl⟩) fun _ =>
    bind (notReadable huse htimer hkept) fun _ => pure

theorem resetCounterVal (huse : InUse g fd) (htimer : g.timer = none)
    (hkept : g.trace.kept = none) : Safe S t g (EpollEquiv.resetCounterVal S fd) :=
  guarded nofun hkept (resetCounterValMutexAlreadyLocked (g := g.lock _) huse htimer hkept)

theorem emEventCtr_read (huse : InUse g fd) (htimer : g.timer = none)
    (hkept : g.trace.kept = none) : Safe S t g (EmEventCtr.read S fd) := by
  refine guarded nofun hkept ?_
  refine bind (resetCounterValMutexAlreadyLocked (g := g.lock _) huse htimer hkept) fun _ => ?_
  exact ite (fun _ => pure) fun _ => bind event fun _ => pure

theorem writeProt (huse : InUse g fd) (htimer : g.timer = none) (hkept : g.trace.kept = none)
    {val : UInt64} : Safe S t g (EmEventCtr.writeProt S fd val) := by
  refine ite (fun _ => pure) fun _ => guarded nofun hkept (bind event fun e => ?_)
  refine ite (fun _ => pure) fun _ => bind (setEvent fun _ => ⟨rfl, rfl, rfl⟩) fun _ => ?_
  refine bind (ite (fun _ => ite (fun _ => ?_) fun _ => ?_) fun _ => pure) fun _ => pure
  · exact renewEv (g := g.lock _) huse htimer hkept
  · exact ite (fun _ => pure) fun _ => pure

end Safe

/-! ## `settime` -/

/-- The `EventMethEpollEquiv` that the thread has for the event: the one that it names, or the one
that the event has. -/
structure Having (g : Place M) (emee : Option M) (fd : Fd) : Prop where
  names : ∀ m ∈ emee, Naming g m fd
  follows : emee = none → g.Follows fd

/-- Behind `settimeEmee`. -/
def Settled (g : Place M) (fd : Fd) (emee : Option M) (s : State M) : Prop :=
  ∀ m ∈ emee, May g m fd ∧ Attached m fd s

omit [DecidableEq M] in
theorem Settled.lasting (emee : Option M) : Lasting g (Settled g fd emee) :=
  .all fun _ => .imp fun _ => .const_and fun h => .attached h.names

namespace Does

theorem settimeEmee {emee : Option M} (h : Having g emee fd) (htimer : g.timer = none) :
    Does S t g (fun _ => True) (EpollEquiv.settimeEmee fd emee) (Settled g fd) fun _ => True := by
  have hfree : ∀ s, Free g fd s := fun _ hin => absurd (htimer ▸ hin) nofun
  cases emee with
  | none =>
    have hread : Does S t g (fun _ => True) (EpollEquiv.event fd : Code M _)
        (fun e => Settled g fd e.event_meth_epoll_equiv_impl_) fun _ => True :=
      Triple.read (fun _ _ _ _ _ m hm => ⟨.inr (h.follows rfl), hm⟩) fun _ =>
        (Settled.lasting _).stable
    exact Triple.bind hread fun _ => Triple.pure fun _ hs => hs
  | some m =>
    have hn := h.names m rfl
    refine Triple.bind (((readEmee (.inl hn)).pre fun s _ => ⟨hfree s, .inl hn⟩).ends
      fun _ _ => trivial) fun e => ?_
    have hset : ∀ s, Attached m fd s → Settled g fd (some m) s := fun s hatt m' hm' => by
      cases hm'
      exact ⟨.inl hn, hatt⟩
    cases he : e.event_meth_epoll_equiv_impl_ with
    | none =>
      refine Triple.bind ((attachTo hn).pre fun s hs =>
        ⟨hs.1, .inl ((hs.2.2.resolve_left nofun).2 rfl)⟩) fun _ => ?_
      exact Triple.pure fun s hs => hset s hs.2
    | some prior_emee =>
      refine Triple.ite (fun hprior => ?_) fun _ => Triple.throw fun _ _ => trivial
      exact Triple.pure fun s hs => hset s (hs.2.1 (by rw [hprior]))

/-- The `ctl` of a timer, and what `settime` does behind it. -/
theorem settimeCtl (hkept : g.trace.kept = none) (htimer : g.timer = none) {op : EvCtlAction}
    {events : Evm} {what : String} {b : Bool} :
    Does S t g (Settled g fd (some m)) (do
      if ← EpollEquiv.ctlEx S op m fd events true then
        EpollEquiv.setEvent fd ({ · with add_was_artificial_ := b })
      else Prog.throw what : Code M Unit) (fun _ _ => True) fun _ => True := by
  refine Triple.known (c := May g m fd) (fun s hs => (hs m rfl).1) fun hmay => ?_
  refine Triple.bind (((ctlEx hmay hkept).pre fun s hs => (hs m rfl).2.known htimer).ends
    fun _ _ => trivial) fun ok => ?_
  have hrest : Safe S t g (if ok then EpollEquiv.setEvent fd ({ · with add_was_artificial_ := b })
      else Prog.throw what : Code M Unit) :=
    Safe.ite (fun _ => Safe.setEvent fun _ => ⟨rfl, rfl, rfl⟩) fun _ => Safe.quiet Quiet.throw
  exact hrest.pre fun _ _ => trivial

end Does


namespace Safe

theorem emEvent_settime {emee : Option M} (h : Having g emee fd) (htimer : g.timer = none) :
    Safe S t g (EmEvent.settime fd emee) :=
  bind event fun _ => ite (fun _ => quiet Quiet.throw) fun _ =>
    Triple.bind (Does.settimeEmee h htimer) fun _ => Triple.pure fun _ _ => trivial

theorem emEventTmrFd_settime {emee : Option M} (h : Having g emee fd) (huse : InUse g fd)
    (htimer : g.timer = none) (hkept : g.trace.kept = none) {running : Bool} :
    Safe S t g (EmEventTmrFd.settime S fd running emee) := by
  refine bind (resetCounterVal huse htimer hkept) fun _ =>
    Triple.bind (Does.settimeEmee h htimer) fun emee => Triple.ite (fun _ => ?_) fun _ => ?_
  · cases emee with
    | none =>
      have hset : Safe S t g (EpollEquiv.setEvent fd ({ · with add_was_artificial_ := false })) :=
        setEvent fun _ => ⟨rfl, rfl, rfl⟩
      exact hset.pre fun _ _ => trivial
    | some m =>
      exact Triple.bind (Quiet.event.does (Settled.lasting _) fun _ _ => trivial) fun _ =>
        Does.settimeCtl hkept htimer
  · refine Triple.bind (Quiet.event.does (Settled.lasting _) fun _ _ => trivial) fun _ =>
      Triple.ite (fun _ => ?_) fun _ => Triple.pure fun _ _ => trivial
    cases emee with
    | none => exact Triple.pure fun _ _ => trivial
    | some m => exact Does.settimeCtl hkept htimer

end Safe

/-! ## `closeEvent` -/

/-- What `closeEvent` knows of the event's `EventMethEpollEquiv`. -/
def Found (S : Setting M) (fd : Fd) (emee : Option M) (s : State M) : Prop :=
  (∀ m ∈ emee, m ∈ S.emee_cptr_set_) ∧ (s.event fd).event_meth_epoll_equiv_impl_ = emee ∧
    (emee = none → Away none fd s)

omit [DecidableEq M] in
theorem Found.lasting (h : g.Owns fd) (emee : Option M) : Lasting g (Found S fd emee) :=
  .and .const (.and (.emee h emee) (.imp fun _ => .away h))

omit [DecidableEq M] [DecidableEq T] in
/-- With `interest_mutex_` of the one to which an event belongs: it is in no set if it is not of
interest. -/
theorem away_of_lock {G : T → Place M} {w : World T (Mutex M) (Call M) (State M)}
    (hinv : (sets S).inv G w) (hlock : .interest_mutex_ m ∈ (G t).trace.held)
    (hkept : (G t).trace.kept = none) (hatt : Attached m fd w.shared)
    (hno : fd ∉ (w.shared.emee m).interest_) : Away none fd w.shared := by
  intro m' _ hl
  obtain rfl : m' = m := Option.some.inj ((hinv.2.listed m' fd hl).2.symm.trans hatt)
  rcases hl with hin | hout
  · exact hno hin
  · exact hinv.2.not_out hinv.1 hlock (by rw [hkept]; exact nofun) fd hout

omit [DecidableEq T] in
/-- An event is erased from both sets. -/
theorem erased {G : T → Place M} {w : World T (Mutex M) (Call M) (State M)} (fd : Fd)
    (hinv : (sets S).inv G w) (hlock : .interest_mutex_ m ∈ (G t).trace.held) :
    (sets S).inv G (w.change (eraseBoth m fd)) ∧
      ∀ u, u ≠ t → Undisturbed (G u) w.shared (eraseBoth m fd w.shared) := by
  obtain ⟨hsorted, hothers⟩ := hinv.2.sets hinv.1 hlock (e := { w.shared.emee m with
    interest_ := (w.shared.emee m).interest_.erase fd
    ready_ := (w.shared.emee m).ready_.erase fd }) (Finset.erase_subset _ _)
    (Finset.erase_subset_erase _ (hinv.2.ready m)) (fun _ hfd => .inr hfd)
    (.inl (Finset.Subset.refl _))
  exact ⟨⟨hinv.1.change (flag_setEmee fun _ => rfl), hsorted⟩, hothers⟩

omit [DecidableEq T] in
theorem away_erased {G : T → Place M} {w : World T (Mutex M) (Call M) (State M)}
    (hinv : (sets S).inv G w) (hlock : .interest_mutex_ m ∈ (G t).trace.held)
    (hkept : (G t).trace.kept = none) (hatt : Attached m fd w.shared) :
    Away none fd (eraseBoth m fd w.shared) :=
  away_of_lock (erased fd hinv hlock).1 hlock hkept hatt (by simp [World.change, eraseBoth])

namespace Does

/-- An event leaves the sets and is deleted. -/
theorem closeBoth (hstack : g.trace.stack = [.closeEvent fd]) (hkept : g.trace.kept = none)
    (hlock : .interest_mutex_ m ∈ g.trace.held) :
    Does S t g (Attached m fd) (EpollEquiv.closeBoth m fd : Code M Unit) (fun _ _ => True)
      fun _ => True := by
  have howns : g.Owns fd := .inl (by rw [hstack]; exact List.mem_cons_self)
  refine Triple.bind (Quiet.close.does (Lasting.emee howns (some m)) fun _ _ => trivial) fun _ =>
    Triple.ite (fun _ => ?_) fun _ => Triple.pure fun _ _ => trivial
  refine Triple.modify (fun G w hg hinv hatt => ?_) .const
  subst hg
  obtain ⟨⟨hT, hsorted⟩, hothers⟩ := erased fd hinv hlock
  obtain ⟨hunused, hno⟩ := hsorted.unused hT hstack
  refine ⟨?_, fun u hu => (hothers u hu).trans (Undisturbed.delete _ fd _), trivial⟩
  rw [Function.update_eq_self]
  exact ⟨hinv.1.change (flag_setEmee fun _ => rfl),
    hsorted.delete (away_erased hinv hlock hkept hatt) hunused hno⟩

theorem closeInterest (hstack : g.trace.stack = [.closeEvent fd]) (hkept : g.trace.kept = none) :
    Does S t g (Attached m fd) (EpollEquiv.closeInterest m fd : Code M Bool)
      (fun closed s => closed = false → Away none fd s) fun _ => True := by
  have howns : g.Owns fd := .inl (by rw [hstack]; exact List.mem_cons_self)
  have hpost : ∀ found : Bool, Lasting g fun s =>
      Attached m fd s ∧ (found = false → Away none fd s) := fun _ =>
    (Lasting.emee howns (some m)).and (.imp fun _ => .away howns)
  refine Does.guarded nofun hkept ?_ (fun closed => (Lasting.imp fun _ => .away howns).stable)
    .const
  refine Triple.bind (Triple.read (Q := fun found s =>
    Attached m fd s ∧ (found = false → Away none fd s)) (fun G w hg hinv hatt =>
      ⟨hatt, fun hno => ?_⟩) fun found => ((hpost found).mono fun _ _ hs => hs.of_lock).stable)
    fun found => Triple.ite (fun _ => ?_) fun hno =>
      Triple.pure fun s hs _ => hs.2 (by simpa using hno)
  · exact away_of_lock hinv (by rw [hg]; exact List.mem_cons_self) (by rw [hg]; exact hkept) hatt
      (by simpa using hno)
  · have hclose : Does S t ((g.lock (.interest_mutex_ m)).lock (.ready_mutex_ m)) (Attached m fd)
        (EpollEquiv.closeBoth m fd : Code M Unit) (fun _ _ => True) fun _ => True :=
      closeBoth hstack hkept (List.mem_cons_of_mem _ List.mem_cons_self)
    have hguarded := Does.guarded (g := g.lock _) (l := .ready_mutex_ m) nofun hkept hclose
      (fun _ => .const) .const
    exact Triple.bind (hguarded.pre fun _ hs => hs.1) fun _ => Triple.pure fun _ _ => nofun

theorem closeAttached (hstack : g.trace.stack = [.closeEvent fd]) (hkept : g.trace.kept = none)
    {emee : Option M} :
    Does S t g (Found S fd emee) (EpollEquiv.closeAttached S fd emee)
      (fun closed s => closed = false → Away none fd s) fun _ => True := by
  have howns : g.Owns fd := .inl (by rw [hstack]; exact List.mem_cons_self)
  cases emee with
  | none => exact Triple.pure fun _ hs _ => hs.2.2 rfl
  | some m =>
    refine Triple.known (c := m ∈ S.emee_cptr_set_) (fun _ hs => hs.1 m rfl) fun hm => ?_
    refine Does.guarded nofun hkept (Triple.ite (fun _ => ?_) fun hno => absurd hm hno)
      (fun _ => (Lasting.imp fun _ => .away howns).stable) .const
    exact (closeInterest (g := g.lock _) hstack hkept).pre fun _ hs => hs.2.1

end Does

theorem Safe.closeEvent (hstack : g.trace.stack = [.closeEvent fd]) (hkept : g.trace.kept = none) :
    Safe S t g (EpollEquiv.closeEvent S fd) := by
  have howns : g.Owns fd := .inl (by rw [hstack]; exact List.mem_cons_self)
  have hemee : Does S t g (fun _ => True) (EpollEquiv.getEventMethEpollEquivImpl S fd) (Found S fd)
      fun _ => True := by
    refine Does.getEventMethEpollEquivImpl hkept (fun emee => Found.lasting howns emee)
      fun G w _ hinv => ⟨fun m hm => hinv.2.live m fd hm, rfl, fun hnone m _ hl => ?_⟩
    have hatt := (hinv.2.listed m fd hl).2
    rw [Attached, hnone] at hatt
    cases hatt
  refine Triple.bind hemee fun emee => Triple.bind (Does.closeAttached hstack hkept) fun closed =>
    Triple.ite (fun _ => Triple.pure fun _ _ => trivial) fun hno => ?_
  have hclose : Does S t g (Away none fd) (EmEvent.close fd : Code M Bool)
      (fun _ => Away none fd) fun _ => True := Quiet.close.does (.away howns) fun _ _ => trivial
  refine Triple.bind (hclose.pre fun s hs => hs (by simpa using hno)) fun _ =>
    Triple.ite (fun _ => ?_) fun _ => Triple.pure fun _ _ => trivial
  refine Triple.modify (fun G w hg hinv haway => ?_) .const
  subst hg
  obtain ⟨hunused, hnone⟩ := hinv.2.unused hinv.1 hstack
  refine ⟨?_, fun u _ => Undisturbed.delete _ fd _, trivial⟩
  rw [Function.update_eq_self]
  exact ⟨hinv.1.change fun _ _ => rfl, hinv.2.delete haway hunused hnone⟩

/-! ## Callbacks -/

/-- The `loop_timer_eme` of the thread belongs to `m`. -/
def Timed (g : Place M) (m : M) (s : State M) : Prop := ∀ fd ∈ g.timer, Attached m fd s

omit [DecidableEq M] in
theorem Timed.lasting : Lasting g (Timed g m) :=
  .all fun _ => .imp fun h => .attached (.inl (.inr h))

namespace Quiet

/-- The callback of a timer does not renew it. -/
theorem writeProt (h : fd.type = .EmEvTimer) (hkept : g.trace.kept = none) {val : UInt64} :
    Quiet S t g (EmEventCtr.writeProt S fd val) := by
  refine ite (fun _ => pure) fun _ => guarded nofun hkept (bind event fun e => ?_)
  refine ite (fun _ => pure) fun _ => bind (setEvent fun _ => ⟨rfl, rfl, rfl⟩) fun _ => ?_
  refine bind (ite (fun _ => ite (fun hrenew => ?_) fun _ => ?_) fun _ => pure) fun _ => pure
  · exact absurd h hrenew.1
  · exact ite (fun _ => pure) fun _ => pure

theorem handle (hkept : g.trace.kept = none) {timeout : Bool} :
    Quiet S t g (EmEvent.handleEventCallback S fd timeout) := by
  refine ite (fun htimer => within rfl rfl rfl ?_) fun _ => pure
  exact bind (writeProt (g := g.push _) htimer.1 hkept) fun _ => pure

end Quiet

namespace Does

theorem addEventToReady (hlock : .interest_mutex_ m' ∈ g.trace.held)
    (hkept : g.trace.kept = none) :
    Does S t g (Timed g m) (addEventToReadyInterestAlrdyLocked m' fd : Code M Unit)
      (fun _ => Timed g m) fun _ => True := by
  have hread : Does S t g (Timed g m) (isInterest m' fd : Code M Bool)
      (fun found s => (found = true → fd ∈ (s.emee m').interest_) ∧ Timed g m s) fun _ => True :=
    Triple.read (fun _ _ _ _ hs => ⟨fun hfound => by simpa using hfound, hs⟩) fun _ =>
      (Lasting.and (.imp fun _ => .interest hlock) Timed.lasting).stable
  refine Triple.bind hread fun found => Triple.ite (fun hfound => ?_) fun _ =>
    Triple.pure fun _ hs => hs.2
  have hinsert : Does S t (g.lock (.ready_mutex_ m'))
      (fun s => fd ∈ (s.emee m').interest_ ∧ Timed g m s) (.modify fun s =>
        s.setEmee m' { s.emee m' with ready_ := insert fd (s.emee m').ready_ } : Code M Unit)
      (fun _ => Timed g m) fun _ => True := by
    refine Does.sets (List.mem_cons_of_mem _ hlock) (fun _ => rfl) (fun G w _ hinv hw => ⟨?_, hw.2⟩)
      (Timed.lasting (g := g.lock _)).stable
    exact .erase (Finset.Subset.refl _) (Finset.insert_subset hw.1 (hinv.2.ready m'))
  have hguarded := Does.guarded (l := .ready_mutex_ m') nofun hkept hinsert
    (fun _ => Timed.lasting.stable) .const
  exact hguarded.pre fun _ hs => ⟨hs.1 hfound, hs.2⟩

theorem handleEventCallback (hkept : g.trace.kept = none) {timeout : Bool} :
    Does S t g (Timed g m) (EpollEquiv.handleEventCallback S m' fd timeout) (fun _ => Timed g m)
      fun _ => True := by
  have hlasting : Lasting (g.lock (.interest_mutex_ m')) (Timed g m) :=
    Timed.lasting (g := g.lock _)
  refine Does.guarded nofun hkept ?_ (fun _ => Timed.lasting.stable) .const
  refine Triple.bind (Quiet.read.does hlasting fun _ _ => trivial) fun _ => Triple.ite (fun _ => ?_)
    fun _ => Triple.pure fun _ hs => hs
  exact Triple.bind ((Quiet.handle (g := g.lock _) hkept).does hlasting fun _ _ => trivial) fun _ =>
    addEventToReady (g := g.lock _) List.mem_cons_self hkept

theorem eventCallbackFn (hkept : g.trace.kept = none) {timeout : Bool} :
    Does S t g (Timed g m) (EpollEquiv.eventCallbackFn S fd timeout) (fun _ => Timed g m)
      fun _ => True := by
  refine Triple.bind ((Quiet.findEmEventInAnInterestSet hkept).does Timed.lasting
    fun _ _ => trivial) fun emee => ?_
  cases emee with
  | none => exact Triple.pure fun _ hs => hs
  | some m' => exact handleEventCallback hkept

end Does

end Pistache.Eventmeth.EpollEquiv
