import Mathlib.Logic.Function.Basic
import Pistache.Lib.Machine
import Pistache.Lib.WaitsFor

/-!
# Threads with mutexes

Threads run programs over a shared state.  A step of a thread locks or unlocks one mutex, changes
the shared state once, takes one answer from outside, or enters or leaves a function whose name
stands on the thread's stack from then on.

A proof about every run gives each thread a ghost value.  `inv` says what the ghost values of the
threads and the world have to do with each other, and `WP` that a program, step by step, can give
its thread ghost values with which `inv` holds.

* `Outline.run_sound` — programs that keep `inv` keep it in every run under the condition.
* `Outline.Sound.waiting` — for which mutexes a thread may wait.
-/

set_option autoImplicit false

namespace Locked

/-! ## Programs -/

/-- A program.  `act f k` changes the shared state by `f` and goes on with `k` of what it was
before. -/
inductive Prog (L F A σ α : Type) : Type where
  | pure (a : α)
  | throw (what : String)
  | lock (l : L) (k : Prog L F A σ α)
  | unlock (l : L) (k : Prog L F A σ α)
  | enter (f : F) (k : Prog L F A σ α)
  | leave (k : Prog L F A σ α)
  | act (f : σ → σ) (k : σ → Prog L F A σ α)
  | choose (k : A → Prog L F A σ α)

namespace Prog

variable {L F A σ α β : Type}

protected def bind : Prog L F A σ α → (α → Prog L F A σ β) → Prog L F A σ β
  | .pure a, f => f a
  | .throw what, _ => .throw what
  | .lock l k, f => .lock l (k.bind f)
  | .unlock l k, f => .unlock l (k.bind f)
  | .enter name k, f => .enter name (k.bind f)
  | .leave k, f => .leave (k.bind f)
  | .act g k, f => .act g fun s => (k s).bind f
  | .choose k, f => .choose fun a => (k a).bind f

instance : Monad (Prog L F A σ) where
  pure := .pure
  bind := Prog.bind

/-- What stands in the shared state. -/
def read (f : σ → α) : Prog L F A σ α := .act id fun s => .pure (f s)

def modify (f : σ → σ) : Prog L F A σ Unit := .act f fun _ => .pure ()

/-- What the outside answers. -/
def ask : Prog L F A σ A := .choose .pure

/-- `c` is put before the end of a program, whether it returns or throws. -/
def ending (c : Prog L F A σ α → Prog L F A σ α) : Prog L F A σ α → Prog L F A σ α
  | .pure a => c (.pure a)
  | .throw what => c (.throw what)
  | .lock l k => .lock l (k.ending c)
  | .unlock l k => .unlock l (k.ending c)
  | .enter name k => .enter name (k.ending c)
  | .leave k => .leave (k.ending c)
  | .act g k => .act g fun s => (k s).ending c
  | .choose k => .choose fun a => (k a).ending c

/-- A `std::lock_guard` around a program. -/
def guarded (l : L) (p : Prog L F A σ α) : Prog L F A σ α := .lock l (p.ending (.unlock l))

/-- The body of a function that stands on the stack. -/
def within (f : F) (p : Prog L F A σ α) : Prog L F A σ α := .enter f (p.ending .leave)

/-- A program whose exception is caught. -/
def attempt : Prog L F A σ α → Prog L F A σ (Option α)
  | .pure a => .pure (some a)
  | .throw _ => .pure none
  | .lock l k => .lock l k.attempt
  | .unlock l k => .unlock l k.attempt
  | .enter name k => .enter name k.attempt
  | .leave k => .leave k.attempt
  | .act g k => .act g fun s => (k s).attempt
  | .choose k => .choose fun a => (k a).attempt

end Prog

/-! ## The machine -/

/-- What the threads share, with the mutexes and the threads' stacks. -/
structure World (T L F σ : Type) where
  shared : σ
  owner : L → Option T
  stack : T → List F

namespace World

variable {T L F σ : Type} [DecidableEq T] [DecidableEq L]

def setOwner (w : World T L F σ) (l : L) (owner : Option T) : World T L F σ :=
  { w with owner := Function.update w.owner l owner }

def setStack (w : World T L F σ) (t : T) (stack : List F) : World T L F σ :=
  { w with stack := Function.update w.stack t stack }

def change (w : World T L F σ) (f : σ → σ) : World T L F σ := { w with shared := f w.shared }

end World

/-- A thread without code has no call in progress; a call returns, or goes on with another
procedure. -/
structure Config (T L F A σ C : Type) where
  world : World T L F σ
  code : T → Option (Prog L F A σ (Option C))

inductive Event (T A C : Type) where
  /-- a thread calls a procedure -/
  | start (t : T) (c : C)
  /-- a thread goes on; the answer is for `choose` -/
  | go (t : T) (answer : A)

/-- The procedures: their bodies, and what stands on the stack of a thread that calls one.  The
ones without a name are not called from outside. -/
structure Procs (L F A σ C : Type) where
  body : C → Prog L F A σ (Option C)
  name : C → Option F

namespace Config

variable {T L F A σ C : Type} [DecidableEq T] [DecidableEq L]

def setCode (c : Config T L F A σ C) (t : T) (code : Option (Prog L F A σ (Option C))) :
    Config T L F A σ C :=
  { c with code := Function.update c.code t code }

/-- The next step of a program. -/
def go (procs : Procs L F A σ C) (c : Config T L F A σ C) (t : T) (answer : A) :
    Prog L F A σ (Option C) → Config T L F A σ C
  | .pure none | .throw _ => { c with world := c.world.setStack t [] }.setCode t none
  | .pure (some next) => c.setCode t (some (procs.body next))
  | .lock l k =>
    if c.world.owner l = none then
      { c with world := c.world.setOwner l (some t) }.setCode t (some k)
    else c
  | .unlock l k => { c with world := c.world.setOwner l none }.setCode t (some k)
  | .enter f k => { c with world := c.world.setStack t (f :: c.world.stack t) }.setCode t (some k)
  | .leave k => { c with world := c.world.setStack t (c.world.stack t).tail }.setCode t (some k)
  | .act f k => { c with world := c.world.change f }.setCode t (some (k c.world.shared))
  | .choose k => c.setCode t (some (k answer))

def step (procs : Procs L F A σ C) (c : Config T L F A σ C) : Event T A C → Config T L F A σ C
  | .start t call =>
    match c.code t, procs.name call with
    | none, some f => { c with world := c.world.setStack t [f] }.setCode t (some (procs.body call))
    | _, _ => c
  | .go t answer =>
    match c.code t with
    | none => c
    | some p => c.go procs t answer p

/-- The mutex that comes next. -/
def wants (c : Config T L F A σ C) (t : T) : Option L :=
  match c.code t with
  | some (.lock l _) => some l
  | _ => none

/-- A thread waits for a mutex that another one, or the thread itself, has locked. -/
def Waits (c : Config T L F A σ C) (t u : T) : Prop :=
  ∃ l, c.wants t = some l ∧ c.world.owner l = some u

end Config

/-! ## Conditions on runs -/

/-- A condition on calls, on functions that are entered, and on answers. -/
structure Condition (T L F A σ C : Type) where
  start : World T L F σ → T → C → Prop := fun _ _ _ => True
  enter : World T L F σ → T → F → Prop := fun _ _ _ => True
  answer : World T L F σ → T → A → Prop := fun _ _ _ => True

namespace Condition

variable {T L F A σ C : Type}

/-- The next step of a thread meets the condition. -/
def Met (P : Condition T L F A σ C) (c : Config T L F A σ C) : Event T A C → Prop
  | .start t call =>
    match c.code t with
    | none => P.start c.world t call
    | some _ => True
  | .go t answer =>
    match c.code t with
    | some (.enter f _) => P.enter c.world t f
    | some (.choose _) => P.answer c.world t answer
    | _ => True

instance Met.decidable {P : Condition T L F A σ C}
    [∀ w t call, Decidable (P.start w t call)] [∀ w t f, Decidable (P.enter w t f)]
    [∀ w t answer, Decidable (P.answer w t answer)] (c : Config T L F A σ C) :
    ∀ event, Decidable (P.Met c event)
  | .start t call =>
    match h : c.code t with
    | none => decidable_of_iff (P.start c.world t call) (by simp only [Met, h])
    | some _ => isTrue (by simp only [Met, h])
  | .go t answer =>
    match h : c.code t with
    | some (.enter f _) => decidable_of_iff (P.enter c.world t f) (by simp only [Met, h])
    | some (.choose _) => decidable_of_iff (P.answer c.world t answer) (by simp only [Met, h])
    | none | some (.pure _) | some (.throw _) | some (.lock _ _) | some (.unlock _ _)
    | some (.leave _) | some (.act _ _) => isTrue (by simp only [Met, h])

end Condition

/-! ## Ghost values -/

/-- What the ghost values of the threads say about the world, and which mutexes a thread may wait
for. -/
structure Ghost (T L F σ γ : Type) where
  inv : (T → γ) → World T L F σ → Prop
  mayWait : γ → L → Prop

section WP

variable {T L F A σ C γ α β : Type} [DecidableEq T] [DecidableEq L]
variable (P : Condition T L F A σ C) (I : Ghost T L F σ γ) (t : T)

/-- A step of thread `t` with ghost value `g`, from worlds that meet `ok`: there is a ghost value
with which the invariant holds behind it and of which `R` holds. -/
def Keeps (g : γ) (ok : World T L F σ → Prop) (step : World T L F σ → World T L F σ)
    (R : World T L F σ → γ → Prop) : Prop :=
  ∀ G w, G t = g → I.inv G w → ok w →
    ∃ g', I.inv (Function.update G t g') (step w) ∧ R w g'

/-- The program keeps the invariant, and it ends with `Q` or throws with `X`. -/
def WP : Prog L F A σ α → γ → (α → γ → Prop) → (γ → Prop) → Prop
  | .pure a, g, Q, _ => Q a g
  | .throw _, g, _, X => X g
  | .lock l k, g, Q, X =>
    I.mayWait g l ∧
      Keeps I t g (fun w => w.owner l = none) (·.setOwner l (some t)) fun _ g' => WP k g' Q X
  | .unlock l k, g, Q, X =>
    Keeps I t g (fun _ => True) (·.setOwner l none) fun _ g' => WP k g' Q X
  | .enter f k, g, Q, X =>
    Keeps I t g (P.enter · t f) (fun w => w.setStack t (f :: w.stack t)) fun _ g' => WP k g' Q X
  | .leave k, g, Q, X =>
    Keeps I t g (fun _ => True) (fun w => w.setStack t (w.stack t).tail) fun _ g' => WP k g' Q X
  | .act f k, g, Q, X =>
    Keeps I t g (fun _ => True) (·.change f) fun w g' => WP (k w.shared) g' Q X
  | .choose k, g, Q, X =>
    ∀ a, Keeps I t g (P.answer · t a) id fun _ g' => WP (k a) g' Q X

variable {P I t}

namespace Keeps

variable {g : γ} {ok ok' : World T L F σ → Prop} {step : World T L F σ → World T L F σ}
  {R R' : World T L F σ → γ → Prop}

omit [DecidableEq L] in
theorem mono (h : Keeps I t g ok step R) (hok : ∀ w, ok' w → ok w)
    (hR : ∀ w g', R w g' → R' w g') : Keeps I t g ok' step R' := by
  intro G w hg hinv hw
  obtain ⟨g', hinv', hg'⟩ := h G w hg hinv (hok w hw)
  exact ⟨g', hinv', hR w g' hg'⟩

end Keeps

namespace WP

variable {g : γ} {Q Q' : α → γ → Prop} {X X' : γ → Prop}

theorem mono (hQ : ∀ a g, Q a g → Q' a g) (hX : ∀ g, X g → X' g) :
    ∀ {p : Prog L F A σ α} {g : γ}, WP P I t p g Q X → WP P I t p g Q' X'
  | .pure a, g, h => hQ a g h
  | .throw _, g, h => hX g h
  | .lock _ _, _, ⟨hwait, h⟩ => ⟨hwait, h.mono (fun _ hw => hw) fun _ _ hk => mono hQ hX hk⟩
  | .unlock _ _, _, h => Keeps.mono h (fun _ hw => hw) fun _ _ hk => mono hQ hX hk
  | .enter _ _, _, h => Keeps.mono h (fun _ hw => hw) fun _ _ hk => mono hQ hX hk
  | .leave _, _, h => Keeps.mono h (fun _ hw => hw) fun _ _ hk => mono hQ hX hk
  | .act _ _, _, h => Keeps.mono h (fun _ hw => hw) fun _ _ hk => mono hQ hX hk
  | .choose _, _, h => fun a => Keeps.mono (h a) (fun _ hw => hw) fun _ _ hk => mono hQ hX hk

theorem bind {f : α → Prog L F A σ β} {Q : β → γ → Prop} :
    ∀ {p : Prog L F A σ α} {g : γ}, WP P I t p g (fun a g' => WP P I t (f a) g' Q X) X →
      WP P I t (p >>= f) g Q X
  | .pure _, _, h => h
  | .throw _, _, h => h
  | .lock _ _, _, ⟨hwait, h⟩ => ⟨hwait, h.mono (fun _ hw => hw) fun _ _ hk => bind hk⟩
  | .unlock _ _, _, h => Keeps.mono h (fun _ hw => hw) fun _ _ hk => bind hk
  | .enter _ _, _, h => Keeps.mono h (fun _ hw => hw) fun _ _ hk => bind hk
  | .leave _, _, h => Keeps.mono h (fun _ hw => hw) fun _ _ hk => bind hk
  | .act _ _, _, h => Keeps.mono h (fun _ hw => hw) fun _ _ hk => bind hk
  | .choose _, _, h => fun a => Keeps.mono (h a) (fun _ hw => hw) fun _ _ hk => bind hk

/-- What a program puts before its end. -/
theorem ending {c : Prog L F A σ α → Prog L F A σ α}
    (hQ : ∀ a g', Q' a g' → WP P I t (c (.pure a)) g' Q X)
    (hX : ∀ what g', X' g' → WP P I t (c (.throw what)) g' Q X) :
    ∀ {p : Prog L F A σ α} {g : γ}, WP P I t p g Q' X' → WP P I t (p.ending c) g Q X
  | .pure a, g, h => hQ a g h
  | .throw what, g, h => hX what g h
  | .lock _ _, _, ⟨hwait, h⟩ => ⟨hwait, h.mono (fun _ hw => hw) fun _ _ hk => ending hQ hX hk⟩
  | .unlock _ _, _, h => Keeps.mono h (fun _ hw => hw) fun _ _ hk => ending hQ hX hk
  | .enter _ _, _, h => Keeps.mono h (fun _ hw => hw) fun _ _ hk => ending hQ hX hk
  | .leave _, _, h => Keeps.mono h (fun _ hw => hw) fun _ _ hk => ending hQ hX hk
  | .act _ _, _, h => Keeps.mono h (fun _ hw => hw) fun _ _ hk => ending hQ hX hk
  | .choose _, _, h => fun a => Keeps.mono (h a) (fun _ hw => hw) fun _ _ hk => ending hQ hX hk

theorem attempt {Q : Option α → γ → Prop} :
    ∀ {p : Prog L F A σ α} {g : γ}, WP P I t p g (fun a g' => Q (some a) g') (Q none) →
      WP P I t p.attempt g Q X
  | .pure _, _, h => h
  | .throw _, _, h => h
  | .lock _ _, _, ⟨hwait, h⟩ => ⟨hwait, h.mono (fun _ hw => hw) fun _ _ hk => attempt hk⟩
  | .unlock _ _, _, h => Keeps.mono h (fun _ hw => hw) fun _ _ hk => attempt hk
  | .enter _ _, _, h => Keeps.mono h (fun _ hw => hw) fun _ _ hk => attempt hk
  | .leave _, _, h => Keeps.mono h (fun _ hw => hw) fun _ _ hk => attempt hk
  | .act _ _, _, h => Keeps.mono h (fun _ hw => hw) fun _ _ hk => attempt hk
  | .choose _, _, h => fun a => Keeps.mono (h a) (fun _ hw => hw) fun _ _ hk => attempt hk

/-- A guarded program: its steps between the two of the mutex. -/
theorem guarded {l : L} {p : Prog L F A σ α} (hwait : I.mayWait g l)
    (hlock : Keeps I t g (fun w => w.owner l = none) (·.setOwner l (some t))
      fun _ g' => WP P I t p g' Q' X')
    (hQ : ∀ a g', Q' a g' → Keeps I t g' (fun _ => True) (·.setOwner l none) fun _ => Q a)
    (hX : ∀ g', X' g' → Keeps I t g' (fun _ => True) (·.setOwner l none) fun _ => X) :
    WP P I t (p.guarded l) g Q X :=
  ⟨hwait, hlock.mono (fun _ hw => hw) fun _ _ hp =>
    ending (c := .unlock l) (fun a g' h => hQ a g' h) (fun _ g' h => hX g' h) hp⟩

theorem within {f : F} {p : Prog L F A σ α}
    (henter : Keeps I t g (P.enter · t f) (fun w => w.setStack t (f :: w.stack t))
      fun _ g' => WP P I t p g' Q' X')
    (hQ : ∀ a g', Q' a g' →
      Keeps I t g' (fun _ => True) (fun w => w.setStack t (w.stack t).tail) fun _ => Q a)
    (hX : ∀ g', X' g' →
      Keeps I t g' (fun _ => True) (fun w => w.setStack t (w.stack t).tail) fun _ => X) :
    WP P I t (p.within f) g Q X :=
  henter.mono (fun _ hw => hw) fun _ _ hp =>
    ending (c := .leave) (fun a g' h => hQ a g' h) (fun _ g' h => hX g' h) hp

theorem ite {c : Prop} [Decidable c] {p q : Prog L F A σ α} (hp : c → WP P I t p g Q X)
    (hq : ¬c → WP P I t q g Q X) : WP P I t (if c then p else q) g Q X := by
  split
  · next hc => exact hp hc
  · next hc => exact hq hc

theorem read {f : σ → α}
    (h : Keeps I t g (fun _ => True) id fun w => Q (f w.shared)) :
    WP P I t (.read f) g Q X := h

theorem modify {f : σ → σ} {Q : Unit → γ → Prop}
    (h : Keeps I t g (fun _ => True) (·.change f) fun _ => Q ()) :
    WP P I t (.modify f) g Q X := h

theorem ask {Q : A → γ → Prop} (h : ∀ a, Keeps I t g (P.answer · t a) id fun _ => Q a) :
    WP P I t .ask g Q X := h

end WP

/-! ## Runs -/

variable (P I) in
/-- A proof outline: what the ghost value of a thread says where it calls a procedure, where it
has none in progress, and where its call ends. -/
structure Outline (procs : Procs L F A σ C) where
  pre : C → γ → Prop
  idle : γ → Prop
  done : γ → Prop
  start : ∀ G w t c f, procs.name c = some f → idle (G t) → I.inv G w → P.start w t c →
    ∃ g', I.inv (Function.update G t g') (w.setStack t [f]) ∧ pre c g'
  body : ∀ t c g, pre c g → WP P I t (procs.body c) g
    (fun next g' => match next with
      | none => done g'
      | some next => pre next g') done
  finish : ∀ G w t, done (G t) → I.inv G w →
    ∃ g', I.inv (Function.update G t g') (w.setStack t []) ∧ idle g'

namespace Outline

variable {procs : Procs L F A σ C} (O : Outline P I procs)

/-- What the end of a procedure says. -/
def post : Option C → γ → Prop
  | none => O.done
  | some next => O.pre next

/-- The code of a thread, with its ghost value. -/
def Fits (t : T) (g : γ) : Option (Prog L F A σ (Option C)) → Prop
  | none => O.idle g
  | some p => WP P I t p g O.post O.done

/-- There are ghost values that fit. -/
def Sound (c : Config T L F A σ C) : Prop :=
  ∃ G, I.inv G c.world ∧ ∀ t, O.Fits t (G t) (c.code t)

theorem fits_body {t : T} {c : C} {g : γ} (h : O.pre c g) : O.Fits t g (some (procs.body c)) :=
  WP.mono (fun next _ hnext => match next with
    | none => hnext
    | some _ => hnext) (fun _ hg => hg) (O.body t c g h)

/-- A thread has moved, and has another ghost value. -/
theorem moved {c : Config T L F A σ C} {G : T → γ} {t : T} {w : World T L F σ} {g : γ}
    {p : Option (Prog L F A σ (Option C))} (hfits : ∀ u, O.Fits u (G u) (c.code u))
    (hinv : I.inv (Function.update G t g) w) (hcode : O.Fits t g p) :
    O.Sound ({ c with world := w }.setCode t p) := by
  refine ⟨Function.update G t g, hinv, fun u => ?_⟩
  by_cases hu : u = t
  · subst hu
    simpa [Config.setCode] using hcode
  · simpa [Config.setCode, hu] using hfits u

/-- A step of one thread. -/
theorem go_sound {c : Config T L F A σ C} {t : T} {answer : A} (h : O.Sound c)
    {p : Prog L F A σ (Option C)} (hp : c.code t = some p) (hmet : P.Met c (.go t answer)) :
    O.Sound (c.go procs t answer p) := by
  obtain ⟨G, hinv, hfits⟩ := h
  have hwp : WP P I t p (G t) O.post O.done := by
    have ht := hfits t
    rwa [hp] at ht
  simp only [Condition.Met, hp] at hmet
  -- for each instruction, what `WP` says of the step
  cases p with
  | pure next =>
    cases next with
    | none =>
      obtain ⟨g', hinv', hidle⟩ := O.finish G c.world t hwp hinv
      exact O.moved hfits hinv' hidle
    | some next =>
      have hsame : Function.update G t (G t) = G := Function.update_eq_self t G
      exact O.moved (g := G t) hfits (hsame.symm ▸ hinv) (O.fits_body hwp)
  | throw what =>
    obtain ⟨g', hinv', hidle⟩ := O.finish G c.world t hwp hinv
    exact O.moved hfits hinv' hidle
  | lock l k =>
    by_cases hfree : c.world.owner l = none
    · obtain ⟨g', hinv', hk⟩ := hwp.2 G c.world rfl hinv hfree
      have hgo := O.moved (p := some k) hfits hinv' hk
      simpa only [Config.go, if_pos hfree] using hgo
    · simpa only [Config.go, if_neg hfree] using ⟨G, hinv, hfits⟩
  | unlock l k =>
    obtain ⟨g', hinv', hk⟩ := hwp G c.world rfl hinv trivial
    exact O.moved hfits hinv' hk
  | enter f k =>
    obtain ⟨g', hinv', hk⟩ := hwp G c.world rfl hinv hmet
    exact O.moved hfits hinv' hk
  | leave k =>
    obtain ⟨g', hinv', hk⟩ := hwp G c.world rfl hinv trivial
    exact O.moved hfits hinv' hk
  | act f k =>
    obtain ⟨g', hinv', hk⟩ := hwp G c.world rfl hinv trivial
    exact O.moved hfits hinv' hk
  | choose k =>
    obtain ⟨g', hinv', hk⟩ := hwp answer G c.world rfl hinv hmet
    exact O.moved hfits hinv' hk

/-- **A step** of the machine keeps what the outline says. -/
theorem step_sound (c : Config T L F A σ C) (event : Event T A C) (h : O.Sound c)
    (hmet : P.Met c event) : O.Sound (c.step procs event) := by
  cases event with
  | start t call =>
    simp only [Config.step]
    split
    · next f hcode hname =>
      obtain ⟨G, hinv, hfits⟩ := h
      have hidle : O.idle (G t) := by
        have ht := hfits t
        rwa [hcode] at ht
      simp only [Condition.Met, hcode] at hmet
      obtain ⟨g', hinv', hpre⟩ := O.start G c.world t call f hname hidle hinv hmet
      exact O.moved hfits hinv' (O.fits_body hpre)
    · exact h
  | go t answer =>
    simp only [Config.step]
    cases hcode : c.code t with
    | none => exact h
    | some p => exact O.go_sound h hcode hmet

/-- **A run** under the condition. -/
theorem run_sound (events : List (Event T A C)) (c : Config T L F A σ C) (h : O.Sound c)
    (hmet : Machine.Always (Config.step procs) P.Met c events) :
    O.Sound (Machine.run (Config.step procs) c events) := by
  have hstep : ∀ c event, O.Sound c → P.Met c event → O.Sound (c.step procs event) :=
    fun c event => O.step_sound c event
  exact Machine.Always.inv hstep events c h hmet

/-- A thread waits only for what its ghost value says. -/
theorem Sound.waiting {c : Config T L F A σ C} (h : O.Sound c) :
    ∃ G, I.inv G c.world ∧ ∀ t l, c.wants t = some l → I.mayWait (G t) l := by
  obtain ⟨G, hinv, hfits⟩ := h
  refine ⟨G, hinv, fun t l hl => ?_⟩
  have ht := hfits t
  unfold Config.wants at hl
  split at hl
  · next hcode =>
    rw [hcode] at ht
    rw [← Option.some.inj hl]
    exact ht.1
  · cases hl

end Outline

end WP

end Locked
