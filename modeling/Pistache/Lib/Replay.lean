/-!
# Updates that can be replayed

A family of updates `u : ι → σ → σ` *replays* when running a list of updates a second time
changes nothing.  This is what a reader needs that starts over from the beginning of its
input after having updated its result already.

* `Absorbing.replays` — families whose updates only add what is missing (`Absorbing`) replay.
* `replays_clearing` — so do absorbing families in which some updates first clear the state.
* `Replays.prod`, `Replays.map` — products and conjugates of replaying families replay.
* `insertNew` — insertion that keeps an existing entry (`std::unordered_map::insert`).
* `applyAll_insertNew_of_nodup`, `applyAll_insertNew_eq_or_lt` — what a table keeps of the entries
  that are inserted.
-/

set_option autoImplicit false

namespace Replay

variable {ι κ σ τ : Type}

/-- Run the updates `is` in order. -/
def applyAll (u : ι → σ → σ) (is : List ι) (s : σ) : σ := is.foldl (fun s i => u i s) s

@[simp] theorem applyAll_nil (u : ι → σ → σ) (s : σ) : applyAll u [] s = s := rfl

@[simp] theorem applyAll_cons (u : ι → σ → σ) (i : ι) (is : List ι) (s : σ) :
    applyAll u (i :: is) s = applyAll u is (u i s) := rfl

@[simp] theorem applyAll_append (u : ι → σ → σ) (is js : List ι) (s : σ) :
    applyAll u (is ++ js) s = applyAll u js (applyAll u is s) := by
  simp [applyAll]

/-- Running the same updates again changes nothing. -/
def Replays (u : ι → σ → σ) : Prop :=
  ∀ is s, applyAll u is (applyAll u is s) = applyAll u is s

/-! ## Absorbing families -/

/-- Every update establishes `has`, no update destroys it, and where it holds the update
changes nothing. -/
structure Absorbing (u : ι → σ → σ) (has : ι → σ → Prop) : Prop where
  self : ∀ i s, has i (u i s)
  keep : ∀ i j s, has j s → has j (u i s)
  absorb : ∀ i s, has i s → u i s = s

variable {u : ι → σ → σ} {has : ι → σ → Prop}

theorem Absorbing.keepAll (h : Absorbing u has) (j : ι) :
    ∀ (is : List ι) (s : σ), has j s → has j (applyAll u is s)
  | [], _, hj => hj
  | i :: is, s, hj => h.keepAll j is (u i s) (h.keep i j s hj)

theorem Absorbing.selfAll (h : Absorbing u has) :
    ∀ (is : List ι) (s : σ), ∀ i ∈ is, has i (applyAll u is s)
  | j :: is, s, i, hi => by
    rcases List.mem_cons.mp hi with rfl | hi
    · exact h.keepAll i is (u i s) (h.self i s)
    · exact h.selfAll is (u j s) i hi

theorem Absorbing.absorbAll (h : Absorbing u has) :
    ∀ (is : List ι) (s : σ), (∀ i ∈ is, has i s) → applyAll u is s = s
  | [], _, _ => rfl
  | i :: is, s, hi => by
    rw [applyAll_cons, h.absorb i s (hi i List.mem_cons_self)]
    exact h.absorbAll is s fun j hj => hi j (List.mem_cons_of_mem _ hj)

theorem Absorbing.replays (h : Absorbing u has) : Replays u :=
  fun is s => h.absorbAll is _ (h.selfAll is s)

/-- Lists of updates of an absorbing family are an absorbing family. -/
theorem Absorbing.lists (h : Absorbing u has) :
    Absorbing (applyAll u) (fun is s => ∀ i ∈ is, has i s) where
  self is s := h.selfAll is s
  keep is _ s hj i hi := h.keepAll i is s (hj i hi)
  absorb is s hi := h.absorbAll is s hi

/-- An absorbing family reindexed. -/
theorem Absorbing.comap (h : Absorbing u has) (f : κ → ι) :
    Absorbing (fun k => u (f k)) (fun k => has (f k)) where
  self k := h.self (f k)
  keep k l := h.keep (f k) (f l)
  absorb k := h.absorb (f k)

/-- Updates of which some do nothing. -/
theorem Absorbing.optional (h : Absorbing u has) (f : κ → Option ι) :
    Absorbing (fun k s => (f k).elim s fun i => u i s) (fun k s => ∀ i, f k = some i → has i s) where
  self k s i hi := by simpa [hi] using h.self i s
  keep k l s hl i hi := by
    cases hk : f k with
    | none => simpa [hk] using hl i hi
    | some j => simpa [hk] using h.keep j i s (hl i hi)
  absorb k s hk := by
    cases hf : f k with
    | none => rfl
    | some i => exact h.absorb i s (hk i hf)

/-! ## Overwriting, clearing, products -/

/-- Updates that overwrite the state, or leave it as it is. -/
theorem replays_overwrite (f : ι → Option σ) : Replays fun i s => (f i).getD s := by
  have key : ∀ (is : List ι) (s : σ),
      applyAll (fun i s => (f i).getD s) is s = (is.foldl (fun o i => (f i).or o) none).getD s := by
    have h : ∀ (is : List ι) (o : Option σ) (s : σ),
        applyAll (fun i s => (f i).getD s) is (o.getD s) =
          (is.foldl (fun o i => (f i).or o) o).getD s := by
      intro is
      induction is with
      | nil => intro o s; rfl
      | cons i is ih =>
        intro o s
        rw [applyAll_cons, List.foldl_cons, ← ih]
        cases f i <;> rfl
    exact fun is s => h is none s
  intro is s
  rw [key, key]
  cases is.foldl (fun o i => (f i).or o) none <;> rfl

/-- The update `i`, which first replaces the state by `empty` when `clears i`. -/
def clearing (clears : ι → Bool) (empty : σ) (u : ι → σ → σ) (i : ι) (s : σ) : σ :=
  u i (if clears i then empty else s)

theorem clearing_const {clears : ι → Bool} {empty : σ} :
    ∀ {is : List ι}, is.any clears = true → ∀ s t : σ,
      applyAll (clearing clears empty u) is s = applyAll (clearing clears empty u) is t
  | [], h, _, _ => by simp at h
  | i :: is, h, s, t => by
    by_cases hi : clears i = true
    · simp [clearing, hi]
    · have his : is.any clears = true := by simpa [hi] using h
      exact clearing_const his _ _

theorem clearing_none {clears : ι → Bool} {empty : σ} :
    ∀ {is : List ι}, is.any clears = false → ∀ s : σ,
      applyAll (clearing clears empty u) is s = applyAll u is s
  | [], _, _ => rfl
  | i :: is, h, s => by
    obtain ⟨hi, his⟩ : clears i = false ∧ is.any clears = false := by simpa using h
    rw [applyAll_cons, applyAll_cons, clearing_none his]
    simp [clearing, hi]

theorem replays_clearing (h : Absorbing u has) (clears : ι → Bool) (empty : σ) :
    Replays (clearing clears empty u) := by
  intro is s
  cases hc : is.any clears with
  | true => exact clearing_const hc _ _
  | false => rw [clearing_none hc, clearing_none hc]; exact h.replays is s

theorem applyAll_prod (u : ι → σ → σ) (v : ι → τ → τ) :
    ∀ (is : List ι) (s : σ) (t : τ),
      applyAll (fun i (p : σ × τ) => (u i p.1, v i p.2)) is (s, t) =
        (applyAll u is s, applyAll v is t)
  | [], _, _ => rfl
  | i :: is, s, t => applyAll_prod u v is (u i s) (v i t)

theorem Replays.prod {v : ι → τ → τ} (hu : Replays u) (hv : Replays v) :
    Replays fun i (p : σ × τ) => (u i p.1, v i p.2) := by
  rintro is ⟨s, t⟩
  rw [applyAll_prod, applyAll_prod, hu is s, hv is t]

/-- Updates of a part: `get` reads the part, `set` writes it back. -/
theorem Replays.map (hu : Replays u) (get : τ → σ) (set : σ → τ → τ)
    (get_set : ∀ s t, get (set s t) = s) (set_set : ∀ s s' t, set s (set s' t) = set s t)
    (set_get : ∀ t, set (get t) t = t) :
    Replays fun i (t : τ) => set (u i (get t)) t := by
  have key : ∀ (is : List ι) (t : τ),
      applyAll (fun i (t : τ) => set (u i (get t)) t) is t = set (applyAll u is (get t)) t := by
    intro is
    induction is with
    | nil => intro t; exact (set_get t).symm
    | cons i is ih => intro t; rw [applyAll_cons, ih, get_set, set_set]; rfl
  intro is t
  rw [key is t, key, get_set, set_set, hu]

/-! ## Insertion that keeps an existing entry -/

variable {α β : Type} [BEq α] [LawfulBEq α]

/-- Append the entry unless the key is there already. -/
def insertNew (k : α) (v : β) (l : List (α × β)) : List (α × β) :=
  if (l.lookup k).isSome then l else l ++ [(k, v)]

/-- Two tables with the same entries. -/
def SameTable {α β : Type} [BEq α] (a b : List (α × β)) : Prop := ∀ key, a.lookup key = b.lookup key

theorem lookup_insertNew (k j : α) (v : β) (l : List (α × β)) :
    (insertNew k v l).lookup j = (l.lookup j).or (if j == k then some v else none) := by
  unfold insertNew
  split
  · rename_i h
    by_cases hj : j == k
    · rw [eq_of_beq hj]
      obtain ⟨w, hw⟩ := Option.isSome_iff_exists.mp h
      simp [hw]
    · simp [hj]
  · rw [List.lookup_append, List.lookup_cons, List.lookup_nil]
    cases j == k <;> rfl

/-- Of entries that are inserted one after the other the first of a key counts. -/
theorem lookup_applyAll_insertNew (k : α) : ∀ (es l : List (α × β)),
    (applyAll (fun (e : α × β) l => insertNew e.1 e.2 l) es l).lookup k = (l.lookup k).or (es.lookup k)
  | [], l => by simp
  | e :: es, l => by
    rw [applyAll_cons, lookup_applyAll_insertNew k es, lookup_insertNew, Option.or_assoc]
    obtain ⟨j, v⟩ := e
    rw [List.lookup_cons]
    cases k == j <;> rfl

/-- In a table of one entry a key every entry is found. -/
theorem lookup_of_mem {k : α} {v : β} : ∀ {l : List (α × β)}, (l.map Prod.fst).Nodup → (k, v) ∈ l →
    l.lookup k = some v
  | [], _, h => nomatch h
  | e :: l, hnodup, h => by
    rw [List.map_cons, List.nodup_cons] at hnodup
    obtain ⟨j, w⟩ := e
    rcases List.mem_cons.mp h with heq | hmem
    · cases heq
      simp
    · have hne : (k == j) = false := by
        rw [beq_eq_false_iff_ne]
        rintro rfl
        exact hnodup.1 (List.mem_map.mpr ⟨_, hmem, rfl⟩)
      rw [List.lookup_cons, hne]
      exact lookup_of_mem hnodup.2 hmem

/-- An entry that has no rival under its key is found. -/
theorem lookup_of_unique {k : α} {v : β} {l : List (α × β)} (h : (k, v) ∈ l)
    (hall : ∀ e ∈ l, e.1 = k → e.2 = v) : l.lookup k = some v := by
  cases hl : l.lookup k with
  | none =>
    have hne := List.lookup_eq_none_iff.mp hl (k, v) h
    simp at hne
  | some w =>
    obtain ⟨front, back, hsplit, -⟩ := List.lookup_eq_some_iff.mp hl
    exact congrArg some (hall (k, w) (by rw [hsplit]; simp) rfl)

/-- Tables with the same entries under a key. -/
theorem lookup_congr {k : α} {a b : List (α × β)} (h : ∀ v, (k, v) ∈ a ↔ (k, v) ∈ b)
    (hb : (b.map Prod.fst).Nodup) : a.lookup k = b.lookup k := by
  have hmem : ∀ {l : List (α × β)} {v : β}, l.lookup k = some v → (k, v) ∈ l := fun hl => by
    obtain ⟨front, back, hsplit, -⟩ := List.lookup_eq_some_iff.mp hl
    rw [hsplit]
    simp
  cases ha : a.lookup k with
  | some v => exact (lookup_of_mem hb ((h v).mp (hmem ha))).symm
  | none =>
    cases hbk : b.lookup k with
    | none => rfl
    | some v =>
      have hin := (h v).mpr (hmem hbk)
      have hne := List.lookup_eq_none_iff.mp ha (k, v) hin
      simp at hne

theorem insertNew_nodup {k : α} {v : β} {l : List (α × β)} (h : (l.map Prod.fst).Nodup) :
    ((insertNew k v l).map Prod.fst).Nodup := by
  unfold insertNew
  split
  · exact h
  · rename_i hnew
    rw [List.map_append, List.nodup_append]
    refine ⟨h, by simp, ?_⟩
    rintro a ha b hb rfl
    obtain rfl : a = k := by simpa using hb
    obtain ⟨e, hmem, he⟩ := List.mem_map.mp ha
    have hnone : l.lookup a = none := Option.not_isSome_iff_eq_none.mp hnew
    have hne := List.lookup_eq_none_iff.mp hnone e hmem
    simp [he] at hne

theorem applyAll_insertNew_nodup : ∀ (es : List (α × β)) {l : List (α × β)},
    (l.map Prod.fst).Nodup →
      ((applyAll (fun (e : α × β) l => insertNew e.1 e.2 l) es l).map Prod.fst).Nodup
  | [], _, h => h
  | _ :: es, _, h => applyAll_insertNew_nodup es (insertNew_nodup h)

/-- Entries under new keys are appended. -/
theorem applyAll_insertNew_of_nodup : ∀ {es l : List (α × β)}, ((l ++ es).map Prod.fst).Nodup →
    applyAll (fun (e : α × β) l => insertNew e.1 e.2 l) es l = l ++ es
  | [], l, _ => (List.append_nil l).symm
  | e :: es, l, h => by
    have hall := h
    rw [List.map_append, List.nodup_append] at h
    have hnone : l.lookup e.1 = none := by
      rw [List.lookup_eq_none_iff]
      intro e' he'
      rw [bne_iff_ne]
      rintro heq
      exact h.2.2 e.1 (List.mem_map.mpr ⟨e', he', heq.symm⟩) e.1 List.mem_cons_self rfl
    have hnew : insertNew e.1 e.2 l = l ++ [e] := by simp [insertNew, hnone]
    rw [applyAll_cons, hnew, applyAll_insertNew_of_nodup (by simpa using hall)]
    simp

omit [LawfulBEq α] in
theorem insertNew_mem {k : α} {v : β} {l : List (α × β)} {e : α × β}
    (h : e ∈ insertNew k v l) : e ∈ l ∨ e = (k, v) := by
  unfold insertNew at h
  split at h
  · exact .inl h
  · simpa using h

omit [LawfulBEq α] in
/-- An entry of the table was there, or has been inserted. -/
theorem mem_applyAll_insertNew {e : α × β} : ∀ {es l : List (α × β)},
    e ∈ applyAll (fun (e : α × β) l => insertNew e.1 e.2 l) es l → e ∈ l ∨ e ∈ es
  | [], _, h => .inl h
  | x :: es, l, h => by
    rcases mem_applyAll_insertNew (l := insertNew x.1 x.2 l) h with h | h
    · exact (insertNew_mem h).imp_right fun heq => List.mem_cons.mpr (.inl heq)
    · exact .inr (List.mem_cons_of_mem x h)

omit [LawfulBEq α] in
/-- Either all entries are appended, or some of them are dropped. -/
theorem applyAll_insertNew_eq_or_lt : ∀ (es l : List (α × β)),
    applyAll (fun (e : α × β) l => insertNew e.1 e.2 l) es l = l ++ es ∨
      (applyAll (fun (e : α × β) l => insertNew e.1 e.2 l) es l).length < l.length + es.length
  | [], l => .inl (List.append_nil l).symm
  | e :: es, l => by
    rw [applyAll_cons, List.length_cons]
    rcases applyAll_insertNew_eq_or_lt es (insertNew e.1 e.2 l) with h | h
    · by_cases hnew : (l.lookup e.1).isSome
      · right
        have hsame : insertNew e.1 e.2 l = l := by simp [insertNew, hnew]
        rw [h, hsame, List.length_append]
        omega
      · left
        have happ : insertNew e.1 e.2 l = l ++ [e] := by simp [insertNew, hnew]
        rw [h, happ]
        simp
    · right
      have hle : (insertNew e.1 e.2 l).length ≤ l.length + 1 := by
        unfold insertNew
        split
        · exact Nat.le_succ _
        · simp
      omega

theorem insertNew_absorbing :
    Absorbing (fun (e : α × β) l => insertNew e.1 e.2 l) (fun e l => (l.lookup e.1).isSome) where
  self e l := by simp [lookup_insertNew]
  keep e f l h := by rw [lookup_insertNew]; simp [h]
  absorb e l h := by simp [insertNew, h]

/-- Entries of one key leave one entry, and no others do. -/
theorem applyAll_insertNew_length_le_one {es : List (α × β)} :
    (applyAll (fun (e : α × β) l => insertNew e.1 e.2 l) es []).length ≤ 1 ↔
      ∀ e ∈ es, ∀ f ∈ es, e.1 = f.1 := by
  constructor
  · intro hlen e he f hf
    have hkey : ∀ e ∈ es, ((applyAll (fun (e : α × β) l => insertNew e.1 e.2 l) es []).lookup e.1).isSome :=
      insertNew_absorbing.selfAll es []
    revert hlen hkey
    generalize applyAll (fun (e : α × β) l => insertNew e.1 e.2 l) es [] = l
    intro hlen hkey
    match l, hlen with
    | [], _ => exact absurd (hkey e he) (by simp)
    | [x], _ =>
      have hone : ∀ e ∈ es, e.1 = x.1 := fun e he => by
        have hsome := hkey e he
        rw [List.lookup_cons] at hsome
        cases hx : e.1 == x.1 with
        | true => exact eq_of_beq hx
        | false =>
          rw [hx] at hsome
          cases hsome
      rw [hone e he, hone f hf]
    | _ :: _ :: _, hlen => simp at hlen
  · intro hkey
    cases es with
    | nil => simp
    | cons e es =>
      have hsame : ∀ f ∈ es, (List.lookup f.1 [e]).isSome := fun f hf => by
        rw [hkey f (List.mem_cons_of_mem e hf) e List.mem_cons_self]
        simp
      rw [applyAll_cons]
      show (applyAll _ es [e]).length ≤ 1
      rw [insertNew_absorbing.absorbAll es [e] hsame]
      exact Nat.le_refl 1

theorem lookup_map_first {ε : Type} {key : ε → α} (v : ε → β) {front : List ε} {e : ε} (back : List ε)
    (h : key e ∉ front.map key) :
    ((front ++ e :: back).map fun e => (key e, v e)).lookup (key e) = some (v e) := by
  have hnone : (front.map fun e => (key e, v e)).lookup (key e) = none := by
    rw [List.lookup_eq_none_iff]
    intro p hp
    obtain ⟨x, hx, rfl⟩ := List.mem_map.mp hp
    rw [bne_iff_ne]
    exact fun heq => h (List.mem_map.mpr ⟨x, hx, heq.symm⟩)
  rw [List.map_append, List.map_cons, List.lookup_append, hnone]
  simp

/-- **Two values for each key fill a table alike** if and only if they are the same for the first
entry of each key that is new. -/
theorem applyAll_insertNew_congr {ε : Type} {key : ε → α} {v w : ε → β} : ∀ {es : List ε} {t : List (α × β)},
    applyAll (fun (e : α × β) l => insertNew e.1 e.2 l) (es.map fun e => (key e, v e)) t =
        applyAll (fun (e : α × β) l => insertNew e.1 e.2 l) (es.map fun e => (key e, w e)) t ↔
      ∀ front e back, es = front ++ e :: back → t.lookup (key e) = none →
        key e ∉ front.map key → v e = w e
  | [], t => by simp
  | x :: es, t => by
    constructor
    · rintro h front e back hes hnew hfirst
      have hlookup := congrArg (List.lookup (key e)) h
      rw [lookup_applyAll_insertNew, lookup_applyAll_insertNew, hnew, hes,
        lookup_map_first v back hfirst, lookup_map_first w back hfirst] at hlookup
      exact Option.some.inj hlookup
    · intro h
      have hsame : insertNew (key x) (v x) t = insertNew (key x) (w x) t := by
        cases hlookup : t.lookup (key x) with
        | some y => simp [insertNew, hlookup]
        | none => rw [h [] x es rfl hlookup (by simp)]
      rw [List.map_cons, List.map_cons, applyAll_cons, applyAll_cons, hsame]
      refine applyAll_insertNew_congr.mpr fun front e back hes hnew hfirst => ?_
      rw [lookup_insertNew, Option.or_eq_none_iff] at hnew
      refine h (x :: front) e back (by rw [hes]; rfl) hnew.1 ?_
      rw [List.map_cons, List.mem_cons, not_or]
      refine ⟨fun heq => ?_, hfirst⟩
      have hnone := hnew.2
      rw [heq] at hnone
      simp at hnone

end Replay
