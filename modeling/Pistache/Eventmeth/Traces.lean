import Pistache.Eventmeth.EpollEquiv

/-!
# Mutexes, stacks and the flag of `poll`

What each thread has locked and which functions it is in, as the ghost value of a thread.  Calls
that clash are never in progress in two threads; two polls of one `EventMethEpollEquiv` always do.

* `Traced` — what the traces of the threads say of the world.
* `Traced.moved` — one thread has moved; from it, what each kind of step does.
-/

set_option autoImplicit false

namespace Pistache.Eventmeth.EpollEquiv

open Locked

/-- What a thread has locked, latest first, and its stack.  `kept` says that it has locked
`interest_mutex_` for the caller of `getReadyEmEvents`. -/
structure Trace (M : Type) where
  held : List (Mutex M) := []
  stack : List (Call M) := []
  kept : Option M := none

namespace Trace

variable {M : Type}

def lock (g : Trace M) (l : Mutex M) : Trace M := { g with held := l :: g.held }

def push (g : Trace M) (f : Call M) : Trace M := { g with stack := f :: g.stack }

end Trace

/-- Calls that must not be in progress in two threads at a time. -/
structure Clashes (M : Type) where
  clash : Call M → Call M → Prop
  symm : ∀ {f f'}, clash f f' → clash f' f
  poll : ∀ m, clash (.poll m) (.poll m)

variable {M T : Type}

/-- No other thread is in a call that clashes with `f`. -/
def Alone (C : Clashes M) (w : World T (Mutex M) (Call M) (State M)) (t : T) (f : Call M) : Prop :=
  ∀ u, u ≠ t → ∀ f' ∈ w.stack u, ¬C.clash f f'

/-- A change of the sets of one `EventMethEpollEquiv` that leaves its flag. -/
theorem flag_setEmee [DecidableEq M] {f : State M → Emee} {m : M}
    (hf : ∀ s, (f s).int_mut_locked_by_get_ready_em_events_ =
      (s.emee m).int_mut_locked_by_get_ready_em_events_) (s : State M) (m' : M) :
    ((s.setEmee m (f s)).emee m').int_mut_locked_by_get_ready_em_events_ =
      (s.emee m').int_mut_locked_by_get_ready_em_events_ := by
  by_cases hm : m' = m
  · subst hm
    simp [State.setEmee, hf]
  · simp [State.setEmee, hm]

/-- What the threads' traces say of the world. -/
structure Traced (C : Clashes M) (G : T → Trace M) (w : World T (Mutex M) (Call M) (State M)) :
    Prop where
  owner : ∀ t l, w.owner l = some t ↔ l ∈ (G t).held
  nodup : ∀ t, (G t).held.Nodup
  stack : ∀ t, w.stack t = (G t).stack
  apart : ∀ t u, t ≠ u → ∀ f ∈ (G t).stack, ∀ f' ∈ (G u).stack, ¬C.clash f f'
  kept : ∀ m, (w.shared.emee m).int_mut_locked_by_get_ready_em_events_ = true ↔
    ∃ t, (G t).kept = some m
  keeper : ∀ t m, (G t).kept = some m → .poll m ∈ (G t).stack
  /-- only `poll` locks the mutex of the flag -/
  poller : ∀ t m, .int_mut_locked_by_get_ready_em_events_mutex_ m ∈ (G t).held →
    .poll m ∈ (G t).stack

/-! ## One step -/

variable [DecidableEq T] {C : Clashes M} {t : T} {G : T → Trace M}
variable {w w' : World T (Mutex M) (Call M) (State M)} {g g' : Trace M}

/-- Thread `t` has moved. -/
theorem Traced.moved (h : Traced C G w) (howner : ∀ l, w'.owner l = some t ↔ l ∈ g'.held)
    (howners : ∀ u, u ≠ t → ∀ l, w'.owner l = some u ↔ w.owner l = some u)
    (hnodup : g'.held.Nodup) (hstack : w'.stack t = g'.stack)
    (hstacks : ∀ u, u ≠ t → w'.stack u = w.stack u)
    (hapart : ∀ u, u ≠ t → ∀ f ∈ g'.stack, ∀ f' ∈ (G u).stack, ¬C.clash f f')
    (hkept : ∀ m, (w'.shared.emee m).int_mut_locked_by_get_ready_em_events_ = true ↔
      g'.kept = some m ∨ ∃ u, u ≠ t ∧ (G u).kept = some m)
    (hkeeper : ∀ m, g'.kept = some m → .poll m ∈ g'.stack)
    (hpoller : ∀ m, .int_mut_locked_by_get_ready_em_events_mutex_ m ∈ g'.held →
      .poll m ∈ g'.stack) : Traced C (Function.update G t g') w' := by
  refine ⟨fun u l => ?_, fun u => ?_, fun u => ?_, fun u v huv f hf f' hf' => ?_, fun m => ?_,
    fun u m hu => ?_, fun u m hu => ?_⟩
  · by_cases hut : u = t
    · subst hut
      simpa using howner l
    · rw [howners u hut, h.owner, Function.update_of_ne hut]
  · by_cases hut : u = t
    · subst hut
      simpa using hnodup
    · simpa [hut] using h.nodup u
  · by_cases hut : u = t
    · subst hut
      simpa using hstack
    · rw [hstacks u hut, h.stack, Function.update_of_ne hut]
  · by_cases hut : u = t
    · subst hut
      rw [Function.update_self] at hf
      rw [Function.update_of_ne (Ne.symm huv)] at hf'
      exact hapart v (Ne.symm huv) f hf f' hf'
    · rw [Function.update_of_ne hut] at hf
      by_cases hvt : v = t
      · subst hvt
        rw [Function.update_self] at hf'
        exact fun hclash => hapart u hut f' hf' f hf (C.symm hclash)
      · rw [Function.update_of_ne hvt] at hf'
        exact h.apart u v huv f hf f' hf'
  · rw [hkept m]
    constructor
    · rintro (hm | ⟨u, hut, hu⟩)
      · exact ⟨t, by simpa using hm⟩
      · exact ⟨u, by simpa [hut] using hu⟩
    · rintro ⟨u, hu⟩
      by_cases hut : u = t
      · subst hut
        exact .inl (by simpa using hu)
      · exact .inr ⟨u, hut, by simpa [hut] using hu⟩
  · by_cases hut : u = t
    · subst hut
      simp only [Function.update_self] at hu ⊢
      exact hkeeper m hu
    · simp only [Function.update_of_ne hut] at hu ⊢
      exact h.keeper u m hu
  · by_cases hut : u = t
    · subst hut
      simp only [Function.update_self] at hu ⊢
      exact hpoller m hu
    · simp only [Function.update_of_ne hut] at hu ⊢
      exact h.poller u m hu

omit [DecidableEq T] in
theorem Traced.apart_of_ne (h : Traced C G w) {u : T} (hu : u ≠ t) :
    ∀ f ∈ (G t).stack, ∀ f' ∈ (G u).stack, ¬C.clash f f' := h.apart t u (Ne.symm hu)

/-- The flags, with the thread apart from the others. -/
theorem Traced.kept_iff (h : Traced C G w) (m : M) :
    (w.shared.emee m).int_mut_locked_by_get_ready_em_events_ = true ↔
      (G t).kept = some m ∨ ∃ u, u ≠ t ∧ (G u).kept = some m := by
  rw [h.kept m]
  constructor
  · rintro ⟨u, hu⟩
    by_cases hut : u = t
    · exact .inl (hut ▸ hu)
    · exact .inr ⟨u, hut, hu⟩
  · rintro (ht | ⟨u, -, hu⟩)
    · exact ⟨t, ht⟩
    · exact ⟨u, hu⟩

/-! ## Steps -/

section

variable [DecidableEq M]

theorem Traced.setOwner_lock (h : Traced C G w) {l : Mutex M} (hfree : w.owner l = none)
    (hpoll : ∀ m, l = .int_mut_locked_by_get_ready_em_events_mutex_ m → .poll m ∈ (G t).stack) :
    Traced C (Function.update G t ((G t).lock l)) (w.setOwner l (some t)) := by
  have hnot : l ∉ (G t).held := fun hl => by
    rw [← h.owner, hfree] at hl
    cases hl
  refine h.moved (fun l' => ?_) (fun u hu l' => ?_) (List.nodup_cons.mpr ⟨hnot, h.nodup t⟩)
    (h.stack t) (fun _ _ => rfl) (fun u hu => h.apart_of_ne hu) (fun m => h.kept_iff m)
    (h.keeper t) fun m hm => ?_
  · by_cases hl : l' = l
    · subst hl
      simp [World.setOwner, Trace.lock]
    · simpa [World.setOwner, Trace.lock, hl] using h.owner t l'
  · by_cases hl : l' = l
    · subst hl
      simp [World.setOwner, hfree, Ne.symm hu]
    · simp [World.setOwner, hl]
  · rcases List.mem_cons.mp hm with hl | hheld
    · exact hpoll m hl.symm
    · exact h.poller t m hheld

theorem Traced.setOwner_unlock (h : Traced C G w) {l : Mutex M} (hl : l ∈ (G t).held) :
    Traced C (Function.update G t { G t with held := (G t).held.erase l })
      (w.setOwner l none) := by
  have hnodup := h.nodup t
  refine h.moved (fun l' => ?_) (fun u hu l' => ?_) (hnodup.erase l) (h.stack t) (fun _ _ => rfl)
    (fun u hu => h.apart_of_ne hu) (fun m => h.kept_iff m) (h.keeper t)
    fun m hm => h.poller t m (List.mem_of_mem_erase hm)
  · by_cases hl' : l' = l
    · subst hl'
      simp [World.setOwner, hnodup.mem_erase_iff]
    · simpa [World.setOwner, hl', List.mem_erase_of_ne hl'] using h.owner t l'
  · by_cases hl' : l' = l
    · subst hl'
      have howner : w.owner l' = some t := (h.owner t l').mpr hl
      simp [World.setOwner, howner, Ne.symm hu]
    · simp [World.setOwner, hl']

end

theorem Traced.setStack_push (h : Traced C G w) {f : Call M} (halone : Alone C w t f) :
    Traced C (Function.update G t ((G t).push f)) (w.setStack t (f :: w.stack t)) := by
  refine h.moved (h.owner t) (fun _ _ _ => Iff.rfl) (h.nodup t) ?_ (fun u hu => ?_)
    (fun u hu f' hf' f'' hf'' => ?_) (fun m => h.kept_iff m)
    (fun m hm => List.mem_cons_of_mem _ (h.keeper t m hm))
    fun m hm => List.mem_cons_of_mem _ (h.poller t m hm)
  · simp [World.setStack, Trace.push, h.stack t]
  · simp [World.setStack, hu]
  · rcases List.mem_cons.mp hf' with rfl | hf'
    · exact halone u hu f'' (by rw [h.stack u]; exact hf'')
    · exact h.apart_of_ne hu f' hf' f'' hf''

theorem Traced.setStack_tail (h : Traced C G w) {f : Call M} (hf : ∀ m, f ≠ .poll m)
    (hg : G t = g.push f) :
    Traced C (Function.update G t g) (w.setStack t (w.stack t).tail) := by
  have hpoll : ∀ m, .poll m ∈ (G t).stack → .poll m ∈ g.stack := by
    intro m hm
    rw [hg] at hm
    exact (List.mem_cons.mp hm).resolve_left (hf m).symm
  have hstack : (G t).stack = f :: g.stack := by rw [hg]; rfl
  have hheld : (G t).held = g.held := by rw [hg]; rfl
  have hkept : (G t).kept = g.kept := by rw [hg]; rfl
  refine h.moved (fun l => hheld ▸ h.owner t l) (fun _ _ _ => Iff.rfl) (hheld ▸ h.nodup t) ?_
    (fun u hu => ?_) (fun u hu f' hf' f'' hf'' => ?_) (fun m => hkept ▸ h.kept_iff m)
    (fun m hm => hpoll m (h.keeper t m (hkept ▸ hm)))
    fun m hm => hpoll m (h.poller t m (hheld ▸ hm))
  · simp [World.setStack, h.stack t, hstack]
  · simp [World.setStack, hu]
  · exact h.apart_of_ne hu f' (hstack ▸ List.mem_cons_of_mem f hf') f'' hf''

/-- A call of a thread that has none in progress. -/
theorem Traced.setStack_start (h : Traced C G w) {f : Call M} (hidle : G t = {})
    (halone : Alone C w t f) :
    Traced C (Function.update G t ⟨[], [f], none⟩) (w.setStack t [f]) := by
  have hheld : (G t).held = [] := by rw [hidle]
  have hkept : (G t).kept = none := by rw [hidle]
  refine h.moved (fun l => hheld ▸ h.owner t l) (fun _ _ _ => Iff.rfl) List.nodup_nil
    (by simp [World.setStack]) (fun u hu => by simp [World.setStack, hu])
    (fun u hu f' hf' f'' hf'' => ?_) (fun m => hkept ▸ h.kept_iff m) (fun m hm => by cases hm)
    fun m hm => by cases hm
  rw [List.mem_singleton] at hf'
  exact hf' ▸ halone u hu f'' (by rw [h.stack u]; exact hf'')

/-- A call ends with no mutex locked. -/
theorem Traced.setStack_nil (h : Traced C G w) (hheld : (G t).held = [])
    (hkept : (G t).kept = none) : Traced C (Function.update G t {}) (w.setStack t []) :=
  h.moved (fun l => hheld ▸ h.owner t l) (fun _ _ _ => Iff.rfl) List.nodup_nil
    (by simp [World.setStack]) (fun u hu => by simp [World.setStack, hu])
    (fun u hu f hf => by cases hf) (fun m => hkept ▸ h.kept_iff m) (fun m hm => by cases hm)
    fun m hm => by cases hm

omit [DecidableEq T] in
/-- A change of the shared state that leaves the flags alone. -/
theorem Traced.change (h : Traced C G w) {f : State M → State M}
    (hf : ∀ s m, ((f s).emee m).int_mut_locked_by_get_ready_em_events_ =
      (s.emee m).int_mut_locked_by_get_ready_em_events_) : Traced C G (w.change f) := by
  have hkept : ∀ m, ((f w.shared).emee m).int_mut_locked_by_get_ready_em_events_ = true ↔
      ∃ u, (G u).kept = some m := fun m => by rw [hf, h.kept m]
  exact ⟨h.owner, h.nodup, h.stack, h.apart, hkept, h.keeper, h.poller⟩

omit [DecidableEq T] in
/-- No other thread has set the flag of `m`. -/
theorem Traced.not_kept (h : Traced C G w) {m : M} (hpoll : .poll m ∈ (G t).stack) :
    ¬∃ u, u ≠ t ∧ (G u).kept = some m := by
  rintro ⟨u, hu, hkept⟩
  exact h.apart_of_ne hu _ hpoll _ (h.keeper u m hkept) (C.poll m)

section

variable [DecidableEq M] {m : M}

/-- The flag of `m` is set by a thread that polls it. -/
theorem Traced.change_keep (h : Traced C G w) (hpoll : .poll m ∈ (G t).stack)
    (hkept : (G t).kept = none) :
    Traced C (Function.update G t { G t with kept := some m }) (w.change fun s =>
      s.setEmee m { s.emee m with int_mut_locked_by_get_ready_em_events_ := true }) := by
  refine h.moved (h.owner t) (fun _ _ _ => Iff.rfl) (h.nodup t) (h.stack t) (fun _ _ => rfl)
    (fun u hu => h.apart_of_ne hu) (fun m' => ?_) (fun m' hm => ?_) (h.poller t)
  · by_cases hm : m' = m
    · subst hm
      simp [World.change, State.setEmee]
    · have hflag := h.kept_iff (t := t) m'
      simp only [hkept, reduceCtorEq, false_or] at hflag
      simp [World.change, State.setEmee, hm, hflag, Ne.symm hm]
  · cases hm
    exact hpoll

theorem Traced.change_release (h : Traced C G w) (hpoll : .poll m ∈ (G t).stack)
    (hkept : (G t).kept = some m) :
    Traced C (Function.update G t { G t with kept := none }) (w.change fun s =>
      s.setEmee m { s.emee m with
        int_mut_locked_by_get_ready_em_events_ := false
        ready_evm_events_out := ∅ }) := by
  refine h.moved (h.owner t) (fun _ _ _ => Iff.rfl) (h.nodup t) (h.stack t) (fun _ _ => rfl)
    (fun u hu => h.apart_of_ne hu) (fun m' => ?_) (fun m' hm => nomatch hm) (h.poller t)
  by_cases hm : m' = m
  · subst hm
    have hnot := h.not_kept hpoll
    simp only [World.change, State.setEmee, Function.update_self, Bool.false_eq_true, reduceCtorEq,
      false_or, hnot]
  · have hflag := h.kept_iff (t := t) m'
    simp only [hkept, Option.some.injEq, Ne.symm hm, false_or] at hflag
    simp [World.change, State.setEmee, hm, hflag]

omit [DecidableEq M] in
/-- The flag, for the thread that polls. -/
theorem Traced.flag_iff (h : Traced C G w) (hpoll : .poll m ∈ (G t).stack) :
    (w.shared.emee m).int_mut_locked_by_get_ready_em_events_ = true ↔ (G t).kept = some m := by
  rw [h.kept_iff (t := t) m]
  exact or_iff_left (h.not_kept hpoll)

end

omit [DecidableEq T] in
theorem traced_init (C : Clashes M) :
    Traced C (fun _ : T => {}) ⟨State.init, fun _ => none, fun _ => []⟩ := by
  refine ⟨fun t l => ?_, fun _ => List.nodup_nil, fun _ => rfl, fun _ _ _ f hf => ?_, fun m => ?_,
    fun _ m hm => ?_, fun _ m hm => ?_⟩
  · simp
  · cases hf
  · simp [State.init]
  · cases hm
  · cases hm

end Pistache.Eventmeth.EpollEquiv
