import Pistache.Http.Steps

/-!
# Header collections

`Header::Collection` holds typed headers and raw ones in two tables, and its lookups ask one of
them each.  `HeadersStep` enters a header of a registered class in both; `remove` takes the
typed one out, and the raw one only where there is no typed one.

Principal results:

* `Header.Collection.Keyed.run` — every entry stands under its own name, after any operations.
* `Header.Collection.removes_iff` — when `remove` removes a header.
* `Header.Collection.headers_not_removed` — what `HeadersStep` has made of a line of a registered
  header is not removed.
-/

set_option autoImplicit false

namespace Pistache.Http.Header

variable {H : Type}

/-! ## Names without case -/

/-- `toLowercase`, from which `LowercaseHash` takes the hash. -/
def toLowercase (str : Bytes) : Bytes := str.map tolower

/-- `LowercaseEqual`. -/
def LowercaseEqual : Bytes → Bytes → Bool
  | [], [] => true
  | a :: left, b :: right => tolower a = tolower b ∧ LowercaseEqual left right
  | _, _ => false

/-- Names that are equal have one hash, and two names with one lowered text are equal: the tables
are tables of lowered names. -/
theorem lowercaseEqual_iff : ∀ {left right : Bytes},
    LowercaseEqual left right = true ↔ toLowercase left = toLowercase right
  | [], [] => by simp [LowercaseEqual, toLowercase]
  | [], _ :: _ => by simp [LowercaseEqual, toLowercase]
  | _ :: _, [] => by simp [LowercaseEqual, toLowercase]
  | a :: left, b :: right => by
    have ih : LowercaseEqual left right = true ↔ toLowercase left = toLowercase right :=
      lowercaseEqual_iff
    simp only [LowercaseEqual, toLowercase, List.map_cons, List.cons.injEq, Bool.decide_and,
      Bool.and_eq_true, decide_eq_true_eq] at ih ⊢
    rw [ih]

/-! ## The operations -/

namespace Collection

/-- `getImpl`. -/
def getImpl (coll : Collection H) (name : Bytes) : Option (TypedHeader H) :=
  coll.headers.lookup (toLowercase name)

def get (coll : Collection H) (name : Bytes) : Except Exn (TypedHeader H) :=
  match coll.getImpl name with
  | some header => .ok header
  | none => .error (.std "Could not find header")

def tryGet (coll : Collection H) (name : Bytes) : Option (TypedHeader H) := coll.getImpl name

def has (coll : Collection H) (name : Bytes) : Bool := (coll.getImpl name).isSome

def getRaw (coll : Collection H) (name : Bytes) : Except Exn Raw :=
  match coll.rawHeaders.lookup (toLowercase name) with
  | some raw => .ok raw
  | none => .error (.std "Could not find header")

def tryGetRaw (coll : Collection H) (name : Bytes) : Option Raw :=
  coll.rawHeaders.lookup (toLowercase name)

def list (coll : Collection H) : List (TypedHeader H) := coll.headers.map Prod.snd

def rawList (coll : Collection H) : List (Bytes × Raw) := coll.rawHeaders

/-- `erase` of the entry of a name. -/
def erase {ν : Type} (name : Bytes) (table : List (Bytes × ν)) : List (Bytes × ν) :=
  table.filter fun e => e.1 ≠ toLowercase name

/-- `remove`: what it returns and what it leaves. -/
def remove (coll : Collection H) (name : Bytes) : Bool × Collection H :=
  match coll.headers.lookup (toLowercase name) with
  | none =>
    match coll.rawHeaders.lookup (toLowercase name) with
    | none => (false, coll)
    | some _ => (true, { coll with rawHeaders := erase name coll.rawHeaders })
  | some _ => (true, { coll with headers := erase name coll.headers })

def clear (_ : Collection H) : Collection H := empty

/-- What is done to a collection from outside. -/
inductive Op (H : Type) where
  | add (header : TypedHeader H)
  | addRaw (raw : Raw)
  | remove (name : Bytes)
  | clear

variable (nameOf : TypedHeader H → Bytes)

/-- One operation; `nameOf` is `Header::name` of the classes. -/
def Op.apply : Op H → Collection H → Collection H
  | .add header, coll => coll.add (nameOf header) header
  | .addRaw raw, coll => coll.addRaw raw
  | .remove name, coll => (coll.remove name).2
  | .clear, coll => coll.clear

def run (ops : List (Op H)) (coll : Collection H) : Collection H :=
  ops.foldl (fun coll op => op.apply nameOf coll) coll

/-- The operation adds a header of this name. -/
def Op.Adds (name : Bytes) : Op H → Prop
  | .add header => LowercaseEqual (nameOf header) name = true
  | .addRaw raw => LowercaseEqual raw.name name = true
  | .remove _ => False
  | .clear => False

/-! ## What removing a header means -/

/-- No lookup finds a header of the name, however the name is written. -/
structure Absent (coll : Collection H) (name : Bytes) : Prop where
  get : ∀ n, LowercaseEqual n name = true → ∃ e, coll.get n = .error e
  tryGet : ∀ n, LowercaseEqual n name = true → coll.tryGet n = none
  has : ∀ n, LowercaseEqual n name = true → coll.has n = false
  getRaw : ∀ n, LowercaseEqual n name = true → ∃ e, coll.getRaw n = .error e
  tryGetRaw : ∀ n, LowercaseEqual n name = true → coll.tryGetRaw n = none
  list : ∀ header ∈ coll.list, LowercaseEqual (nameOf header) name = false
  rawList : ∀ e ∈ coll.rawList, LowercaseEqual e.2.name name = false

/-- Every lookup finds the same of a name in two collections. -/
structure SameAt (coll coll' : Collection H) (name : Bytes) : Prop where
  get : coll'.get name = coll.get name
  tryGet : coll'.tryGet name = coll.tryGet name
  has : coll'.has name = coll.has name
  getRaw : coll'.getRaw name = coll.getRaw name
  tryGetRaw : coll'.tryGetRaw name = coll.tryGetRaw name
  list : coll'.list.filter (fun header => LowercaseEqual (nameOf header) name) =
    coll.list.filter fun header => LowercaseEqual (nameOf header) name
  rawList : coll'.rawList.filter (fun e => LowercaseEqual e.2.name name) =
    coll.rawList.filter fun e => LowercaseEqual e.2.name name

/-- A lookup of the name finds a header. -/
def Found (coll : Collection H) (name : Bytes) : Prop :=
  coll.has name = true ∨ (coll.tryGetRaw name).isSome = true

/-- **`remove` removes the header of a name**: it is not found until one is added again, other
headers are found as before, and the result tells whether it was there. -/
structure Removes (coll : Collection H) (name : Bytes) : Prop where
  gone : ∀ ops : List (Op H), (∀ op ∈ ops, ¬op.Adds nameOf name) →
    Absent nameOf (run nameOf ops (coll.remove name).2) name
  others : ∀ n, LowercaseEqual n name = false → SameAt nameOf coll (coll.remove name).2 n
  returned : (coll.remove name).1 = true ↔ coll.Found name

/-! ## Tables -/

section Tables

variable {ν : Type} {name n : Bytes} {table : List (Bytes × ν)}

theorem lookup_erase_self (h : toLowercase n = toLowercase name) :
    (erase name table).lookup (toLowercase n) = none := by
  rw [List.lookup_eq_none_iff]
  intro e he
  have hne := (List.mem_filter.mp he).2
  rw [decide_eq_true_eq] at hne
  rw [h]
  exact bne_iff_ne.mpr (Ne.symm hne)

theorem lookup_erase_ne (h : toLowercase n ≠ toLowercase name) :
    (erase name table).lookup (toLowercase n) = table.lookup (toLowercase n) := by
  induction table with
  | nil => rfl
  | cons e table ih =>
    obtain ⟨key, v⟩ := e
    rw [erase, List.filter_cons]
    split
    · rw [List.lookup_cons, List.lookup_cons]
      split
      · rfl
      · exact ih
    · rename_i hkey
      have hkey' : key = toLowercase name := by simpa using hkey
      have hne : (toLowercase n == key) = false := beq_eq_false_iff_ne.mpr (hkey' ▸ h)
      rw [List.lookup_cons, hne]
      exact ih

theorem lookup_erase_none (h : table.lookup (toLowercase n) = none) :
    (erase name table).lookup (toLowercase n) = none := by
  by_cases heq : toLowercase n = toLowercase name
  · exact lookup_erase_self heq
  · rw [lookup_erase_ne heq, h]

/-- Erasing a name leaves what is filtered out by another name. -/
theorem filter_erase {p : Bytes × ν → Bool} (h : ∀ e ∈ table, p e = true → e.1 ≠ toLowercase name) :
    (erase name table).filter p = table.filter p := by
  rw [erase, List.filter_filter]
  refine List.filter_congr fun e he => ?_
  cases hp : p e with
  | false => rfl
  | true => simpa using h e he hp

end Tables

/-! ## The invariant -/

/-- Every entry stands under the lowered name of its header. -/
structure Keyed (coll : Collection H) : Prop where
  headers : ∀ e ∈ coll.headers, e.1 = toLowercase (nameOf e.2)
  raws : ∀ e ∈ coll.rawHeaders, e.1 = toLowercase e.2.name

variable {nameOf} {coll : Collection H} {name n : Bytes}

theorem Keyed.empty : Keyed nameOf (empty : Collection H) := by
  constructor <;> simp [Collection.empty]

theorem Keyed.apply (h : Keyed nameOf coll) (op : Op H) : Keyed nameOf (op.apply nameOf coll) := by
  cases op with
  | add header =>
    refine ⟨fun e he => ?_, h.raws⟩
    rcases Replay.insertNew_mem he with he | rfl
    · exact h.headers e he
    · rfl
  | addRaw raw =>
    refine ⟨h.headers, fun e he => ?_⟩
    rcases Replay.insertNew_mem he with he | rfl
    · exact h.raws e he
    · rfl
  | remove name =>
    show Keyed nameOf (coll.remove name).2
    unfold Collection.remove
    split
    · split
      · exact h
      · exact ⟨h.headers, fun e he => h.raws e (List.mem_filter.mp he).1⟩
    · exact ⟨fun e he => h.headers e (List.mem_filter.mp he).1, h.raws⟩
  | clear => exact Keyed.empty

/-- **Every entry stands under its own name.** -/
theorem Keyed.run (h : Keyed nameOf coll) (ops : List (Op H)) :
    Keyed nameOf (run nameOf ops coll) := by
  induction ops generalizing coll with
  | nil => exact h
  | cons op ops ih => exact ih (h.apply op)

/-! ## Lookups of a name that is not there -/

theorem absent_of_lookup (hk : Keyed nameOf coll)
    (hheader : coll.headers.lookup (toLowercase name) = none)
    (hraw : coll.rawHeaders.lookup (toLowercase name) = none) : Absent nameOf coll name := by
  have hnone : ∀ {n}, LowercaseEqual n name = true → coll.getImpl n = none := by
    intro n hn
    rw [getImpl, lowercaseEqual_iff.mp hn, hheader]
  have hnoraw : ∀ {n}, LowercaseEqual n name = true →
      coll.rawHeaders.lookup (toLowercase n) = none := by
    intro n hn
    rw [lowercaseEqual_iff.mp hn, hraw]
  refine ⟨fun n hn => ⟨_, by rw [get, hnone hn]⟩, fun n hn => hnone hn,
    fun n hn => by rw [has, hnone hn]; rfl, fun n hn => ⟨_, by rw [getRaw, hnoraw hn]⟩,
    fun n hn => hnoraw hn, ?_, ?_⟩
  · intro header hin
    obtain ⟨e, he, rfl⟩ := List.mem_map.mp hin
    rw [Bool.eq_false_iff]
    intro heq
    have hkey := hk.headers e he
    rw [lowercaseEqual_iff.mp heq] at hkey
    have hne := List.lookup_eq_none_iff.mp hheader e he
    rw [hkey] at hne
    simp at hne
  · intro e he
    rw [Bool.eq_false_iff]
    intro heq
    have hkey := hk.raws e he
    rw [lowercaseEqual_iff.mp heq] at hkey
    have hne := List.lookup_eq_none_iff.mp hraw e he
    rw [hkey] at hne
    simp at hne

theorem lookup_insertNew_none {ν : Type} {k key : Bytes} {v : ν} {table : List (Bytes × ν)}
    (hne : key ≠ k) (h : table.lookup key = none) :
    (Replay.insertNew k v table).lookup key = none := by
  have hbeq : (key == k) = false := beq_eq_false_iff_ne.mpr hne
  rw [Replay.lookup_insertNew, h, hbeq]
  rfl

/-- A header that is not there is not there after an operation that adds none of its name. -/
theorem lookup_apply_none {op : Op H} (hop : ¬op.Adds nameOf name)
    (hheader : coll.headers.lookup (toLowercase name) = none)
    (hraw : coll.rawHeaders.lookup (toLowercase name) = none) :
    (op.apply nameOf coll).headers.lookup (toLowercase name) = none ∧
      (op.apply nameOf coll).rawHeaders.lookup (toLowercase name) = none := by
  cases op with
  | add header =>
    refine ⟨lookup_insertNew_none (fun heq => hop ?_) hheader, hraw⟩
    exact lowercaseEqual_iff.mpr heq.symm
  | addRaw raw =>
    refine ⟨hheader, lookup_insertNew_none (fun heq => hop ?_) hraw⟩
    exact lowercaseEqual_iff.mpr heq.symm
  | remove other =>
    show (coll.remove other).2.headers.lookup _ = none ∧
      (coll.remove other).2.rawHeaders.lookup _ = none
    unfold Collection.remove
    split
    · split
      · exact ⟨hheader, hraw⟩
      · exact ⟨hheader, lookup_erase_none hraw⟩
    · exact ⟨lookup_erase_none hheader, hraw⟩
  | clear => exact ⟨rfl, rfl⟩

theorem lookup_run_none {ops : List (Op H)} (hops : ∀ op ∈ ops, ¬op.Adds nameOf name)
    (hheader : coll.headers.lookup (toLowercase name) = none)
    (hraw : coll.rawHeaders.lookup (toLowercase name) = none) :
    (run nameOf ops coll).headers.lookup (toLowercase name) = none ∧
      (run nameOf ops coll).rawHeaders.lookup (toLowercase name) = none := by
  induction ops generalizing coll with
  | nil => exact ⟨hheader, hraw⟩
  | cons op ops ih =>
    obtain ⟨hheader', hraw'⟩ := lookup_apply_none (hops op List.mem_cons_self) hheader hraw
    exact ih (fun op' hop' => hops op' (List.mem_cons_of_mem op hop')) hheader' hraw'

/-! ## Removing -/

/-- What `remove` leaves of the tables, by what they hold of the name. -/
theorem remove_cases (coll : Collection H) (name : Bytes) :
    ((∃ header, coll.getImpl name = some header) ∧
      coll.remove name = (true, { coll with headers := erase name coll.headers })) ∨
    (coll.getImpl name = none ∧ (∃ raw, coll.tryGetRaw name = some raw) ∧
      coll.remove name = (true, { coll with rawHeaders := erase name coll.rawHeaders })) ∨
    (coll.getImpl name = none ∧ coll.tryGetRaw name = none ∧ coll.remove name = (false, coll)) := by
  unfold Collection.remove getImpl tryGetRaw
  cases hheader : coll.headers.lookup (toLowercase name) with
  | some header => exact .inl ⟨⟨header, rfl⟩, rfl⟩
  | none =>
    cases hraw : coll.rawHeaders.lookup (toLowercase name) with
    | some raw => exact .inr (.inl ⟨rfl, ⟨raw, rfl⟩, rfl⟩)
    | none => exact .inr (.inr ⟨rfl, rfl, rfl⟩)

theorem sameAt_eraseHeader (hk : Keyed nameOf coll) (hn : LowercaseEqual n name = false) :
    SameAt nameOf coll { coll with headers := erase name coll.headers } n := by
  have hne : toLowercase n ≠ toLowercase name := fun heq => by
    rw [lowercaseEqual_iff.mpr heq] at hn
    cases hn
  have himpl : getImpl { coll with headers := erase name coll.headers } n = coll.getImpl n :=
    lookup_erase_ne hne
  refine ⟨by rw [get, get, himpl], himpl, by rw [has, has, himpl], rfl, rfl, ?_, rfl⟩
  show ((erase name coll.headers).map Prod.snd).filter _ = (coll.headers.map Prod.snd).filter _
  rw [List.filter_map, List.filter_map, filter_erase]
  intro e he hp
  rw [hk.headers e he, lowercaseEqual_iff.mp hp]
  exact hne

theorem sameAt_eraseRaw (hk : Keyed nameOf coll) (hn : LowercaseEqual n name = false) :
    SameAt nameOf coll { coll with rawHeaders := erase name coll.rawHeaders } n := by
  have hne : toLowercase n ≠ toLowercase name := fun heq => by
    rw [lowercaseEqual_iff.mpr heq] at hn
    cases hn
  have hraw : (erase name coll.rawHeaders).lookup (toLowercase n) =
      coll.rawHeaders.lookup (toLowercase n) := lookup_erase_ne hne
  refine ⟨rfl, rfl, rfl, by simp only [getRaw, hraw], hraw, rfl, filter_erase fun e he hp => ?_⟩
  rw [hk.raws e he, lowercaseEqual_iff.mp hp]
  exact hne

theorem remove_sameAt (hk : Keyed nameOf coll) (hn : LowercaseEqual n name = false) :
    SameAt nameOf coll (coll.remove name).2 n := by
  rcases remove_cases coll name with ⟨-, heq⟩ | ⟨-, -, heq⟩ | ⟨-, -, heq⟩
  · rw [heq]
    exact sameAt_eraseHeader hk hn
  · rw [heq]
    exact sameAt_eraseRaw hk hn
  · rw [heq]
    exact ⟨rfl, rfl, rfl, rfl, rfl, rfl, rfl⟩

theorem remove_returned (coll : Collection H) (name : Bytes) :
    (coll.remove name).1 = true ↔ coll.Found name := by
  unfold Found has
  rcases remove_cases coll name with ⟨⟨header, hheader⟩, heq⟩ | ⟨hheader, ⟨raw, hraw⟩, heq⟩ |
    ⟨hheader, hraw, heq⟩
  · simp [heq, hheader]
  · simp [heq, hheader, hraw]
  · simp [heq, hheader, hraw]

/-- Where the name is in one table at most, `remove` leaves it in none. -/
theorem remove_lookup (h : ¬(coll.has name = true ∧ (coll.tryGetRaw name).isSome = true)) :
    (coll.remove name).2.headers.lookup (toLowercase name) = none ∧
      (coll.remove name).2.rawHeaders.lookup (toLowercase name) = none := by
  unfold has at h
  rcases remove_cases coll name with ⟨⟨header, hheader⟩, heq⟩ | ⟨hheader, -, heq⟩ |
    ⟨hheader, hraw, heq⟩
  · have hraw : coll.tryGetRaw name = none := by
      rw [hheader] at h
      simpa using h
    rw [heq]
    exact ⟨lookup_erase_self rfl, hraw⟩
  · rw [heq]
    exact ⟨hheader, lookup_erase_self rfl⟩
  · rw [heq]
    exact ⟨hheader, hraw⟩

/-- A raw header under a typed one of its name stays. -/
theorem not_removes (hheader : coll.has name = true) (hraw : (coll.tryGetRaw name).isSome = true) :
    ¬Removes nameOf coll name := by
  intro h
  have habsent := (h.gone [] (by simp)).tryGetRaw name (lowercaseEqual_iff.mpr rfl)
  unfold has at hheader
  rcases remove_cases coll name with ⟨-, heq⟩ | ⟨hnone, -, -⟩ | ⟨hnone, -, -⟩
  · have hstays : coll.tryGetRaw name = none := by
      rw [heq] at habsent
      exact habsent
    rw [hstays] at hraw
    cases hraw
  · rw [hnone] at hheader
    cases hheader
  · rw [hnone] at hheader
    cases hheader

/-- **When `remove` removes a header**: unless the collection, built by any operations, holds a
typed and a raw header of the name. -/
theorem removes_iff (nameOf : TypedHeader H → Bytes) (ops : List (Op H)) (name : Bytes) :
    Removes nameOf (run nameOf ops empty) name ↔
      ¬((run nameOf ops empty).has name = true ∧
        ((run nameOf ops empty).tryGetRaw name).isSome = true) := by
  have hk : Keyed nameOf (run nameOf ops empty) := Keyed.empty.run ops
  constructor
  · rintro h ⟨hheader, hraw⟩
    exact not_removes hheader hraw h
  · intro h
    obtain ⟨hheader, hraw⟩ := remove_lookup h
    refine ⟨fun more hmore => ?_, fun n hn => remove_sameAt hk hn, remove_returned _ name⟩
    obtain ⟨hheader', hraw'⟩ := lookup_run_none hmore hheader hraw
    exact absent_of_lookup ((hk.apply (.remove name)).run more) hheader' hraw'

/-! ## After the header step -/

theorem lookup_insertNew_isSome {ν : Type} (k : Bytes) (v : ν) (table : List (Bytes × ν)) :
    ((Replay.insertNew k v table).lookup k).isSome = true := by
  rw [Replay.lookup_insertNew, beq_self_eq_true]
  cases table.lookup k <;> rfl

/-- **What `HeadersStep` has entered** for a line of a registered header is not removed. -/
theorem headers_not_removed (registry : Registry H) (coll : Collection H) {name value : Bytes}
    {header : TypedHeader H} (h : HeadersStep.typed registry name value = some (.ok header)) :
    ¬Removes nameOf (HeadersStep.headers registry name value coll).1 name := by
  have hcoll : (HeadersStep.headers registry name value coll).1 =
      (coll.add name header).addRaw ⟨name, value⟩ := by
    rw [HeadersStep.headers, h]
  rw [hcoll]
  refine not_removes ?_ ?_
  · exact lookup_insertNew_isSome (toLowercase name) header coll.headers
  · exact lookup_insertNew_isSome (toLowercase name) ⟨name, value⟩ coll.rawHeaders

/-- A `Content-Length`, as the header step enters it. -/
theorem removes_contentLength :
    ¬Removes (fun _ => lit "Content-Length")
      (run (fun _ => lit "Content-Length")
        [.add (.ContentLength 5 : TypedHeader Unit), .addRaw ⟨lit "Content-Length", lit "5"⟩] empty)
      (lit "content-length") :=
  not_removes (by decide) (by decide)

end Collection

end Pistache.Http.Header
