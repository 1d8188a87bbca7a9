import Pistache.Http.Mime

/-!
# The tokens of a media type

What `match_string` and `match_literal` take from the text of a media type.

* `firstMatch_entry` — a token that is in a table is matched.
* `MediaType.parseRaw_raw` — a media type that has been parsed keeps its text.
* `MediaType.parseRaw_type` — a text that is accepted begins with a type and a slash.
-/

set_option autoImplicit false

namespace Pistache

/-- A token ends in front of the first of the characters. -/
theorem tokenUntil_append {chars : List UInt8} {a b : Bytes} (ha : ∀ c ∈ a, c ∉ chars)
    (hb : b = [] ∨ ∃ c u, b = c :: u ∧ c ∈ chars) : tokenUntil chars (a ++ b) = (a, b) := by
  have away : ∀ a₁ x a₂ (u : Bytes), a = a₁ ++ x :: a₂ →
      Scan.atHead (chars.contains ·) (x :: a₂ ++ u) = false := by
    intro a₁ x a₂ u eq
    have := ha x (by rw [eq]; simp)
    simpa [Scan.atHead] using this
  unfold tokenUntil match_until
  rcases hb with rfl | ⟨c, u, rfl, hc⟩
  · rw [List.append_nil, Scan.scan_eq_none fun a₁ x a₂ eq => by
      have := away a₁ x a₂ [] eq
      rwa [List.append_nil] at this]
    rfl
  · rw [Scan.scan_eq_some (by simpa [Scan.atHead] using hc) (List.cons_ne_nil c u)
      fun a₁ x a₂ eq => away a₁ x a₂ _ eq]
    rfl

/-! ## Tables of names -/

/-- The entry of a table whose name is the token, but for the case of letters. -/
def entry {α : Type} (table : List (Bytes × α)) (token : Bytes) : Option α :=
  table.lookup (token.map tolower)

/-- The names are in small letters, and none is the beginning of another one. -/
structure Distinct {α : Type} (table : List (Bytes × α)) : Prop where
  small : ∀ e ∈ table, e.1.map tolower = e.1
  free : ∀ e ∈ table, ∀ f ∈ table, e.1 <+: f.1 → e = f

theorem entry_mem {α : Type} {table : List (Bytes × α)} {token : Bytes} {value : α}
    (h : entry table token = some value) : (token.map tolower, value) ∈ table := by
  obtain ⟨front, back, split, -⟩ := List.lookup_eq_some_iff.mp h
  rw [split]
  simp

theorem entry_none {α : Type} {table : List (Bytes × α)} {token : Bytes}
    (h : entry table token = none) : ∀ e ∈ table, e.1 ≠ token.map tolower := by
  intro e he same
  have := List.lookup_eq_none_iff.mp h e he
  simp [same] at this

/-- **A token that is in the table is matched**, whatever is behind it. -/
theorem firstMatch_entry {α : Type} {table : List (Bytes × α)} (hd : Distinct table)
    {token : Bytes} {value : α} (h : entry table token = some value) (rest : Bytes) :
    firstMatch match_string table (token ++ rest) = some (value, rest) := by
  have mem := entry_mem h
  have matched : match_string (token.map tolower) (token ++ rest) = some rest :=
    match_string_iff.mpr ⟨token, rfl, (hd.small _ mem).symm⟩
  cases first : firstMatch match_string table (token ++ rest) with
  | none =>
    have := List.findSome?_eq_none_iff.mp first _ mem
    rw [matched] at this
    cases this
  | some found =>
    obtain ⟨value', rest'⟩ := found
    obtain ⟨name, mem', matched'⟩ := firstMatch_some first
    obtain ⟨p, split, same⟩ := match_string_iff.mp matched'
    rw [hd.small _ mem'] at same
    have one : (name, value') = (token.map tolower, value) := by
      rcases List.prefix_or_prefix_of_prefix (List.prefix_append token rest)
        (split ▸ List.prefix_append p rest') with le | le
      · exact (hd.free _ mem _ mem' (same ▸ le.map tolower)).symm
      · exact hd.free _ mem' _ mem (same ▸ le.map tolower)
    obtain ⟨rfl, rfl⟩ := Prod.mk.inj one
    have length := congrArg List.length same
    rw [List.length_map, List.length_map] at length
    rw [(List.append_inj split length.symm).2]

/-- A text that begins with no name is not matched. -/
theorem firstMatch_none {α : Type} {table : List (Bytes × α)} (hd : Distinct table)
    {cursor : Bytes} (h : ∀ e ∈ table, ¬ e.1 <+: cursor.map tolower) :
    firstMatch match_string table cursor = none := by
  cases first : firstMatch match_string table cursor with
  | none => rfl
  | some found =>
    obtain ⟨value, rest⟩ := found
    obtain ⟨name, mem, matched⟩ := firstMatch_some first
    obtain ⟨p, rfl, same⟩ := match_string_iff.mp matched
    rw [hd.small _ mem] at same
    refine absurd ?_ (h _ mem)
    rw [List.map_append]
    exact ⟨rest.map tolower, by rw [same]⟩

/-! ## The beginning of a media type -/

/-- A character that is not a letter is matched by itself alone. -/
theorem match_literal_iff {c : UInt8} {cursor rest : Bytes}
    (hc : ∀ d, tolower c = tolower d → c = d) :
    match_literal c cursor = some rest ↔ cursor = c :: rest := by
  cases cursor with
  | nil => simp [match_literal]
  | cons d cursor =>
    rw [match_literal]
    split
    · next same =>
      obtain rfl := hc d same
      simp
    · next other =>
      constructor
      · intro h
        cases h
      · intro h
        cases h
        exact absurd rfl other

namespace Http.Mime.MediaType

/-- `MediaType::fromRaw`, of the text `str` in front of `behind`. -/
def fromRaw (str behind : Bytes) : Except Exn MediaType := parseRaw str behind

/-- `MediaType::fromString`. -/
def fromString (str : Bytes) : Except Exn MediaType := fromRaw str []

/-- A letter, or a star. -/
def isTypeChar (c : UInt8) : Bool := (97 ≤ tolower c ∧ tolower c ≤ 122) ∨ tolower c = 42

theorem mimeTypes_distinct : Distinct mimeTypes := ⟨by decide, by decide⟩

theorem mimeSubtypes_distinct : Distinct mimeSubtypes := ⟨by decide, by decide⟩

theorem mimeSuffixes_distinct : Distinct mimeSuffixes := ⟨by decide, by decide⟩

theorem tolower_slash (d : UInt8) (h : tolower slash = tolower d) : slash = d :=
  (tolower_eq (by decide) h.symm).symm

set_option maxRecDepth 8000 in
theorem mimeTypes_chars : ∀ entry ∈ mimeTypes, entry.1 ≠ [] ∧
    ∀ c ∈ entry.1.map tolower, (97 ≤ c ∧ c ≤ 122) ∨ c = 42 := by
  decide

/-- What is left behind the type and the slash. -/
theorem parseTop_some {text rest : Bytes} {top : «Type»} (h : parseTop text = .ok (top, rest)) :
    ∃ p, text = p ++ slash :: rest ∧ p ≠ [] ∧ ∀ c ∈ p, isTypeChar c = true := by
  unfold parseTop at h
  split at h
  · cases h
  · next t cursor first =>
    split at h
    · cases h
    · next behind literal =>
      split at h
      · cases h
      · cases h
        obtain ⟨name, entry, matched⟩ := firstMatch_some first
        obtain ⟨p, rfl, same⟩ := match_string_iff.mp matched
        rw [match_literal_iff tolower_slash] at literal
        obtain ⟨some, chars⟩ := mimeTypes_chars _ entry
        refine ⟨p, by rw [literal], ?_, ?_⟩
        · rintro rfl
          exact some (List.map_eq_nil_iff.mp same.symm)
        · intro c hc
          have := chars (tolower c) (same ▸ List.mem_map_of_mem hc)
          rw [isTypeChar, decide_eq_true_iff]
          exact this

/-! ## The text is kept -/

theorem parseSub_raw (media : MediaType) (start : Bytes) :
    (parseSub media start).1.raw_ = media.raw_ := by
  unfold parseSub
  dsimp only
  split
  · rfl
  · split
    · rfl
    · rfl

theorem parseSuffix_raw {media media' : MediaType} {cursor rest : Bytes}
    (h : parseSuffix media cursor = .ok (media', rest)) : media'.raw_ = media.raw_ := by
  unfold parseSuffix at h
  split at h
  · cases h
    rfl
  · split at h
    · cases h
    · split at h
      · cases h
        rfl
      · cases h
        rfl

theorem parseParameter_raw {behind : Bytes} {media media' : MediaType} {cursor rest : Bytes}
    (h : parseParameter behind media cursor = .ok (media', rest)) : media'.raw_ = media.raw_ := by
  unfold parseParameter at h
  split at h
  · split at h
    · cases h
    · cases h
      rfl
  · split at h
    · unfold parseQuality at h
      split at h
      · cases h
      · split at h
        · cases h
        · split at h
          · cases h
          · cases h
            rfl
    · unfold parseParam at h
      dsimp only at h
      split at h
      · cases h
      · cases h
        rfl

theorem parseParameters_raw {behind : Bytes} {media media' : MediaType} {cursor : Bytes}
    (h : parseParameters behind media cursor = .ok media') : media'.raw_ = media.raw_ := by
  revert h
  refine Loop.run_induction (parameterBody_shrinks behind) _
    (fun m _ => m.raw_ = media.raw_) (fun r => r = .ok media' → media'.raw_ = media.raw_) ?_ ?_
    media cursor rfl
  · intro m c r kept exit ok
    unfold parameterBody at exit
    split at exit
    · cases exit
      cases ok
      exact kept
    · split at exit
      · cases exit
        cases ok
      · cases exit
  · intro m c m' c' kept next
    unfold parameterBody at next
    split at next
    · cases next
    · split at next
      · cases next
      · next parsed =>
        cases next
        exact (parseParameter_raw parsed).trans kept

/-- **A media type that has been parsed keeps its text.** -/
theorem parseRaw_raw {text behind : Bytes} {media : MediaType}
    (h : parseRaw text behind = .ok media) : media.raw_ = text := by
  unfold parseRaw at h
  simp only [bind, Except.bind, pure, Except.pure] at h
  split at h
  · cases h
  · next found top =>
    split at h
    · cases h
      exact parseSub_raw _ _
    · split at h
      · cases h
      · next pair suffix =>
        exact (parseParameters_raw h).trans ((parseSuffix_raw suffix).trans (parseSub_raw _ _))

/-- **A text that is accepted begins with a type and a slash.** -/
theorem parseRaw_type {text behind : Bytes} {media : MediaType}
    (h : parseRaw text behind = .ok media) :
    ∃ p rest, text = p ++ slash :: rest ∧ p ≠ [] ∧ ∀ c ∈ p, isTypeChar c = true := by
  unfold parseRaw at h
  simp only [bind, Except.bind] at h
  split at h
  · cases h
  · next found top =>
    obtain ⟨p, shape⟩ := parseTop_some top
    exact ⟨p, _, shape⟩

end Http.Mime.MediaType

end Pistache
