import Pistache.Lib.Locked

/-!
# What a thread knows of the shared state

Beside its ghost value each thread has a predicate on the shared state, which no step of another
thread makes false.  `rely g` says what the other threads may do to the shared state while a
thread has the ghost value `g`: to go on with more than it knew, a thread needs a predicate that
is stable under it.

* `Rely.ghost` — the ghost values with what their threads know.
* `Triple` — programs by what is known in front of them and behind them, with its rules.
-/

set_option autoImplicit false

namespace Locked

/-- An invariant, and what the other threads may do to the shared state. -/
structure Rely (T L F σ γ : Type) where
  inv : (T → γ) → World T L F σ → Prop
  rely : γ → σ → σ → Prop
  refl : ∀ g s, rely g s s

/-- A ghost value with what its thread knows. -/
structure View (γ σ : Type) where
  base : γ
  knows : σ → Prop

/-- What the others may do does not make the predicate false. -/
def Stable {σ : Type} (rely : σ → σ → Prop) (K : σ → Prop) : Prop := ∀ s s', rely s s' → K s → K s'

namespace Stable

variable {σ : Type} {rely rely' : σ → σ → Prop} {K K' : σ → Prop}

theorem mono (h : Stable rely K) (hle : ∀ s s', rely' s s' → rely s s') : Stable rely' K :=
  fun s s' hs hK => h s s' (hle s s' hs) hK

theorem const {p : Prop} : Stable rely fun _ => p := fun _ _ _ hp => hp

theorem and (h : Stable rely K) (h' : Stable rely K') : Stable rely fun s => K s ∧ K' s :=
  fun s s' hs hK => ⟨h s s' hs hK.1, h' s s' hs hK.2⟩

theorem imp {p : Prop} (h : p → Stable rely K) : Stable rely fun s => p → K s :=
  fun s s' hs hK hp => h hp s s' hs (hK hp)

theorem all {ι : Sort*} {K : ι → σ → Prop} (h : ∀ i, Stable rely (K i)) :
    Stable rely fun s => ∀ i, K i s := fun s s' hs hK i => h i s s' hs (hK i)

end Stable

variable {T L F A σ C γ α β : Type}

/-- The threads may wait for every mutex. -/
def Rely.ghost (R : Rely T L F σ γ) : Ghost T L F σ (View γ σ) where
  inv G w := R.inv (fun t => (G t).base) w ∧
    ∀ t, (G t).knows w.shared ∧ Stable (R.rely (G t).base) (G t).knows
  mayWait _ _ := True

variable [DecidableEq T] [DecidableEq L]

omit [DecidableEq L] in
/-- A step that the others rely on, behind which the thread has the ghost value `b` and knows `J`,
by the world in front of it. -/
theorem Rely.keeps {R : Rely T L F σ γ} {t : T} {v : View γ σ} {b : World T L F σ → γ}
    {ok : World T L F σ → Prop} {step : World T L F σ → World T L F σ}
    {J : World T L F σ → σ → Prop}
    (hstep : ∀ G w, G t = v.base → R.inv G w → v.knows w.shared → ok w →
      Stable (R.rely v.base) v.knows →
        R.inv (Function.update G t (b w)) (step w) ∧
          (∀ u, u ≠ t → R.rely (G u) w.shared (step w).shared) ∧
          J w (step w).shared ∧ Stable (R.rely (b w)) (J w)) :
    Keeps R.ghost t v ok step fun w v' => v' = ⟨b w, J w⟩ := by
  rintro G w rfl ⟨hinv, hknows⟩ hok
  obtain ⟨hinv', hothers, hJ, hstable⟩ :=
    hstep (fun u => (G u).base) w rfl hinv (hknows t).1 hok (hknows t).2
  refine ⟨⟨b w, J w⟩, ⟨?_, fun u => ?_⟩, rfl⟩
  · have hbase : (fun u => (Function.update G t ⟨b w, J w⟩ u).base) =
        Function.update (fun u => (G u).base) t (b w) := by
      funext u
      by_cases hu : u = t
      · subst hu
        simp
      · simp [hu]
    rw [hbase]
    exact hinv'
  · by_cases hu : u = t
    · subst hu
      simpa using ⟨hJ, hstable⟩
    · rw [Function.update_of_ne hu]
      exact ⟨(hknows u).2 _ _ (hothers u hu) (hknows u).1, (hknows u).2⟩

/-! ## Triples -/

/-- The thread has the ghost value `g` and knows `E`. -/
def Ends (g : γ) (E : σ → Prop) (v : View γ σ) : Prop := v.base = g ∧ ∀ s, v.knows s → E s

section Triple

variable (P : Condition T L F A σ C) (R : Rely T L F σ γ) (t : T)

/-- From the ghost value `g` and what is known, `K`, the program comes to `g'` and `Q`, or throws
with `X`. -/
def Triple (g : γ) (K : σ → Prop) (p : Prog L F A σ α) (g' : γ) (Q : α → σ → Prop)
    (X : View γ σ → Prop) : Prop :=
  ∀ K₀ : σ → Prop, (∀ s, K₀ s → K s) →
    WP P R.ghost t p ⟨g, K₀⟩ (fun a => Ends g' (Q a)) X

variable {P R t}

namespace Triple

variable {g g' g'' : γ} {K K' E : σ → Prop} {p : Prog L F A σ α} {Q Q' : α → σ → Prop}
  {X X' : View γ σ → Prop}

theorem mono (h : Triple P R t g K p g' Q X) (hK : ∀ s, K' s → K s)
    (hQ : ∀ a s, Q a s → Q' a s) (hX : ∀ v, X v → X' v) : Triple P R t g K' p g' Q' X' :=
  fun K₀ hK₀ => WP.mono (fun a _ hv => ⟨hv.1, fun s hs => hQ a s (hv.2 s hs)⟩) hX
    (h K₀ fun s hs => hK s (hK₀ s hs))

theorem pre (h : Triple P R t g K p g' Q X) (hK : ∀ s, K' s → K s) : Triple P R t g K' p g' Q X :=
  h.mono hK (fun _ _ hs => hs) fun _ hv => hv

theorem post (h : Triple P R t g K p g' Q X) (hQ : ∀ a s, Q a s → Q' a s) :
    Triple P R t g K p g' Q' X := h.mono (fun _ hs => hs) hQ fun _ hv => hv

/-- A program behind which less is known when it throws. -/
theorem ends {E' : σ → Prop} (h : Triple P R t g K p g' Q (Ends g'' E)) (hE : ∀ s, E s → E' s) :
    Triple P R t g K p g' Q (Ends g'' E') :=
  h.mono (fun _ hs => hs) (fun _ _ hs => hs) fun _ hv => ⟨hv.1, fun s hs => hE s (hv.2 s hs)⟩

/-- A triple says what the program does to the ghost value of a thread. -/
theorem holds {v : View γ σ} {Y : α → View γ σ → Prop} (h : Triple P R t g K p g' Q X)
    (hv : Ends g K v) (hQ : ∀ a v', Ends g' (Q a) v' → Y a v') (hX : ∀ v, X v → X' v) :
    WP P R.ghost t p v Y X' := by
  obtain ⟨base, knows⟩ := v
  obtain ⟨rfl, hknows⟩ := hv
  exact WP.mono hQ hX (h knows hknows)

/-- A program, and what comes behind it from any ghost value that its result leaves. -/
theorem andThen {v : View γ σ} {f : α → Prog L F A σ β} {Y : β → View γ σ → Prop}
    (h : Triple P R t g K p g' Q X) (hv : Ends g K v) (hX : ∀ v, X v → X' v)
    (hf : ∀ a v', Ends g' (Q a) v' → WP P R.ghost t (f a) v' Y X') :
    WP P R.ghost t (p >>= f) v Y X' := WP.bind (h.holds hv hf hX)

theorem pure {a : α} (h : ∀ s, K s → Q a s) :
    Triple P R t g K (Pure.pure a : Prog L F A σ α) g Q X :=
  fun _ hK₀ => ⟨rfl, fun s hs => h s (hK₀ s hs)⟩

theorem throw {what : String} (h : ∀ s, K s → E s) :
    Triple P R t g K (.throw what : Prog L F A σ α) g' Q (Ends g E) :=
  fun _ hK₀ => ⟨rfl, fun s hs => h s (hK₀ s hs)⟩

/-- Where what is known does not hold of any state, nothing is reached. -/
theorem absurd (h : ∀ s, ¬K s) : ∀ p : Prog L F A σ α, Triple P R t g K p g Q (Ends g E) := by
  intro p K₀ hK₀
  have hnever : ∀ G w, G t = (⟨g, K₀⟩ : View γ σ) → R.ghost.inv G w → False := by
    intro G w hg hinv
    have hknows := (hinv.2 t).1
    rw [hg] at hknows
    exact h _ (hK₀ _ hknows)
  have hkeeps : ∀ ok step post, Keeps R.ghost t ⟨g, K₀⟩ ok step post :=
    fun _ _ _ G w hg hinv _ => (hnever G w hg hinv).elim
  cases p with
  | pure a => exact ⟨rfl, fun s hs => (h s (hK₀ s hs)).elim⟩
  | throw what => exact ⟨rfl, fun s hs => (h s (hK₀ s hs)).elim⟩
  | lock l k => exact ⟨trivial, hkeeps _ _ _⟩
  | choose k => exact fun a => hkeeps _ _ _
  | _ => exact hkeeps _ _ _

/-- What is known and does not depend on the state. -/
theorem known {c : Prop} (hc : ∀ s, K s → c) (h : c → Triple P R t g K p g Q (Ends g E)) :
    Triple P R t g K p g Q (Ends g E) := by
  by_cases hcase : c
  · exact h hcase
  · exact absurd (fun s hs => hcase (hc s hs)) p

theorem bind {f : α → Prog L F A σ β} {Q' : β → σ → Prop} (hp : Triple P R t g K p g' Q X)
    (hf : ∀ a, Triple P R t g' (Q a) (f a) g'' Q' X) : Triple P R t g K (p >>= f) g'' Q' X :=
  fun K₀ hK₀ => WP.bind (WP.mono (fun a v hv => by
    obtain ⟨base, knows⟩ := v
    obtain ⟨rfl, hknows⟩ := hv
    exact hf a knows hknows) (fun _ hv => hv) (hp K₀ hK₀))

theorem ite {c : Prop} [Decidable c] {q : Prog L F A σ α} (hp : c → Triple P R t g K p g' Q X)
    (hq : ¬c → Triple P R t g K q g' Q X) : Triple P R t g K (if c then p else q) g' Q X := by
  split
  · next hc => exact hp hc
  · next hc => exact hq hc

/-- One change of the shared state; `J` says what is known behind it, by the state in front. -/
theorem act {b : σ → γ} {f : σ → σ} {k : σ → Prog L F A σ α} {J : σ → σ → Prop}
    (hstep : ∀ G w, G t = g → R.inv G w → K w.shared →
      R.inv (Function.update G t (b w.shared)) (w.change f) ∧
        (∀ u, u ≠ t → R.rely (G u) w.shared (f w.shared)) ∧ J w.shared (f w.shared))
    (hstable : ∀ s, Stable (R.rely (b s)) (J s))
    (hk : ∀ s, Triple P R t (b s) (J s) (k s) g' Q X) : Triple P R t g K (.act f k) g' Q X := by
  intro K₀ hK₀
  refine (Rely.keeps (b := fun w => b w.shared) (J := fun w => J w.shared)
    fun G w hg hinv hknows _ _ => ?_).mono (fun _ hw => hw) fun w v' hv' => ?_
  · obtain ⟨hinv', hothers, hJ⟩ := hstep G w hg hinv (hK₀ _ hknows)
    exact ⟨hinv', hothers, hJ, hstable w.shared⟩
  · subst hv'
    exact hk w.shared _ fun _ hs => hs

/-- What stands in the shared state. -/
theorem read {f : σ → α} (h : ∀ G w, G t = g → R.inv G w → K w.shared → Q (f w.shared) w.shared)
    (hstable : ∀ a, Stable (R.rely g) (Q a)) : Triple P R t g K (.read f) g Q X := by
  refine act (b := fun _ => g) (J := fun s => Q (f s)) (fun G w hg hinv hK => ?_)
    (fun s => hstable (f s)) fun s => pure fun _ hs => hs
  refine ⟨?_, fun u _ => R.refl _ _, h G w hg hinv hK⟩
  rw [← hg, Function.update_eq_self]
  exact hinv

/-- The program looks at the shared state, and goes on by what it finds there. -/
theorem look {k : σ → Prog L F A σ α} {N : σ → Prop}
    (hN : ∀ G w, G t = g → R.inv G w → K w.shared → N w.shared)
    (hk : ∀ s, N s → Triple P R t g K (k s) g' Q X) : Triple P R t g K (.act id k) g' Q X := by
  intro K₀ hK₀ G w hg hinv _
  have hknows := (hinv.2 t).1
  rw [hg] at hknows
  refine ⟨G t, by rw [Function.update_eq_self]; exact hinv, ?_⟩
  rw [hg]
  exact hk _ (hN _ w (congrArg View.base hg) hinv.1 (hK₀ _ hknows)) K₀ hK₀

theorem modify {f : σ → σ} {Q : Unit → σ → Prop}
    (hstep : ∀ G w, G t = g → R.inv G w → K w.shared →
      R.inv (Function.update G t g') (w.change f) ∧
        (∀ u, u ≠ t → R.rely (G u) w.shared (f w.shared)) ∧ Q () (f w.shared))
    (hstable : Stable (R.rely g') (Q ())) : Triple P R t g K (.modify f) g' Q X :=
  act (b := fun _ => g') hstep (fun _ => hstable) fun _ => pure fun _ hs => hs

/-- What the outside answers changes nothing. -/
theorem ask {Q : A → σ → Prop} (h : ∀ a G w, G t = g → R.inv G w → P.answer w t a →
      ∀ s, K s → Q a s) : Triple P R t g K .ask g Q X := by
  intro K₀ hK₀ a
  refine (Rely.keeps (b := fun _ => g)
    (J := fun w s => K₀ s ∧ (P.answer w t a ∧ ∃ G, G t = g ∧ R.inv G w))
    fun G w hg hinv hknows hok hstable => ?_).mono (fun _ hw => hw) fun w v' hv' => ?_
  · have hg' : G t = g := hg
    refine ⟨?_, fun u _ => R.refl _ _, ⟨hknows, hok, G, hg, hinv⟩, hstable.and .const⟩
    rw [← hg', Function.update_eq_self]
    exact hinv
  · subst hv'
    exact ⟨rfl, fun s ⟨hs, hok, G, hg, hinv⟩ => h a G w hg hinv hok s (hK₀ s hs)⟩

theorem attempt {Q : Option α → σ → Prop}
    (hp : Triple P R t g K p g (fun a => Q (some a)) (Ends g (Q none))) :
    Triple P R t g K p.attempt g Q X := fun K₀ hK₀ => WP.attempt (hp K₀ hK₀)

omit [DecidableEq L] in
/-- What a step of the mutexes or of the stack leaves known. -/
theorem keeps_quiet {b : γ} {ok : World T L F σ → Prop} {step : World T L F σ → World T L F σ}
    {K₀ : σ → Prop} (hstep : ∀ G w, G t = g → R.inv G w → ok w →
      R.inv (Function.update G t b) (step w)) (hshared : ∀ w, (step w).shared = w.shared)
    (hK : ∀ s, K₀ s → K s) (hstable : Stable (R.rely g) K₀ → Stable (R.rely b) K) :
    Keeps R.ghost t ⟨g, K₀⟩ ok step fun _ v' => v' = ⟨b, K⟩ :=
  Rely.keeps (b := fun _ => b) (J := fun _ => K) fun G w hg hinv hknows hok hK₀ =>
    ⟨hstep G w hg hinv hok, fun u _ => by rw [hshared]; exact R.refl _ _,
      by rw [hshared]; exact hK _ hknows, hstable hK₀⟩

omit [DecidableEq L] in
/-- The last step of a guarded program or of a function's body: the thread knows what is stable
behind it. -/
theorem keeps_end {b : γ} {step : World T L F σ → World T L F σ} {v : View γ σ}
    (hstep : ∀ G w, G t = g → R.inv G w → R.inv (Function.update G t b) (step w))
    (hshared : ∀ w, (step w).shared = w.shared) (hv : Ends g K v) (hK : Stable (R.rely b) K) :
    Keeps R.ghost t v (fun _ => True) step fun _ => Ends b K := by
  obtain ⟨base, knows⟩ := v
  obtain ⟨rfl, hknows⟩ := hv
  refine (keeps_quiet (fun G w hg hinv _ => hstep G w hg hinv) hshared hknows fun _ => hK).mono
    (fun _ hw => hw) fun _ v' hv' => ?_
  subst hv'
  exact ⟨rfl, fun _ hs => hs⟩

/-- A mutex is locked; what was known is known. -/
theorem lock {b : γ} {l : L} {k : Prog L F A σ α}
    (hlock : ∀ G w, G t = g → R.inv G w → w.owner l = none →
      R.inv (Function.update G t b) (w.setOwner l (some t)))
    (hrely : ∀ s s', R.rely b s s' → R.rely g s s') (hk : Triple P R t b K k g' Q X) :
    Triple P R t g K (.lock l k) g' Q X := fun K₀ hK₀ =>
  ⟨trivial, (keeps_quiet (K := K₀) hlock (fun _ => rfl) (fun _ hs => hs)
    fun hstable => hstable.mono hrely).mono (fun _ hw => hw) fun _ _ hv' => hv' ▸ hk K₀ hK₀⟩

/-- A mutex is unlocked; what is stable without it is known. -/
theorem unlock {b : γ} {l : L} {k : Prog L F A σ α}
    (hunlock : ∀ G w, G t = g → R.inv G w → R.inv (Function.update G t b) (w.setOwner l none))
    {J : σ → Prop} (hJ : ∀ s, K s → J s) (hstable : Stable (R.rely b) J)
    (hk : Triple P R t b J k g' Q X) : Triple P R t g K (.unlock l k) g' Q X := fun _ hK₀ =>
  (keeps_quiet (fun G w hg hinv _ => hunlock G w hg hinv) (fun _ => rfl)
    (fun s hs => hJ s (hK₀ s hs)) fun _ => hstable).mono (fun _ hw => hw)
      fun _ _ hv' => hv' ▸ hk J fun _ hs => hs

/-- A guarded program.  Behind `unlock` the thread knows what is stable without the mutex. -/
theorem guarded {b : γ} {l : L}
    (hlock : ∀ G w, G t = g → R.inv G w → w.owner l = none →
      R.inv (Function.update G t b) (w.setOwner l (some t)))
    (hunlock : ∀ G w, G t = b → R.inv G w → R.inv (Function.update G t g) (w.setOwner l none))
    (hrely : ∀ s s', R.rely b s s' → R.rely g s s')
    (hp : Triple P R t b K p b Q (Ends b E)) (hQ : ∀ a, Stable (R.rely g) (Q a))
    (hE : Stable (R.rely g) E) : Triple P R t g K (p.guarded l) g Q (Ends g E) := by
  intro K₀ hK₀
  have hfirst : Keeps R.ghost t ⟨g, K₀⟩ (fun w => w.owner l = none) (·.setOwner l (some t))
      fun _ v' => WP P R.ghost t p v' (fun a => Ends b (Q a)) (Ends b E) :=
    (keeps_quiet (K := K₀) hlock (fun _ => rfl) (fun _ hs => hs)
      fun hstable => hstable.mono hrely).mono (fun _ hw => hw) fun _ v' hv' => hv' ▸ hp K₀ hK₀
  exact WP.guarded trivial hfirst (fun a _ hv => keeps_end hunlock (fun _ => rfl) hv (hQ a))
    fun _ hv => keeps_end hunlock (fun _ => rfl) hv hE

/-- The body of a function that stands on the stack. -/
theorem within {b : γ} {f : F}
    (henter : ∀ G w, G t = g → R.inv G w → P.enter w t f →
      R.inv (Function.update G t b) (w.setStack t (f :: w.stack t)))
    (hleave : ∀ G w, G t = b → R.inv G w →
      R.inv (Function.update G t g) (w.setStack t (w.stack t).tail))
    (hrely : ∀ s s', R.rely b s s' → R.rely g s s')
    (hp : Triple P R t b K p b Q (Ends b E)) (hQ : ∀ a, Stable (R.rely g) (Q a))
    (hE : Stable (R.rely g) E) : Triple P R t g K (p.within f) g Q (Ends g E) := by
  intro K₀ hK₀
  have hfirst : Keeps R.ghost t ⟨g, K₀⟩ (P.enter · t f) (fun w => w.setStack t (f :: w.stack t))
      fun _ v' => WP P R.ghost t p v' (fun a => Ends b (Q a)) (Ends b E) :=
    (keeps_quiet (K := K₀) henter (fun _ => rfl) (fun _ hs => hs)
      fun hstable => hstable.mono hrely).mono (fun _ hw => hw) fun _ v' hv' => hv' ▸ hp K₀ hK₀
  exact WP.within hfirst (fun a _ hv => keeps_end hleave (fun _ => rfl) hv (hQ a))
    fun _ hv => keeps_end hleave (fun _ => rfl) hv hE

end Triple

end Triple

end Locked
