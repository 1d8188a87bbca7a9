import Pistache.Common.Stream

/-!
# More of the cursor

The functions of `StreamCursor` that only the readers of header values use: `advance`, `next`,
`match_literal`, and the comparison of the text with the entries of a table one after the other.

* `advance_length`, `match_literal_length`, `firstMatch_length` — each leaves fewer bytes behind
  the cursor.
-/

set_option autoImplicit false

namespace Pistache

/-- `StreamCursor::advance`: it moves the cursor by `count` or not at all. -/
def advance (count : Nat) (cursor : Bytes) : Option Bytes :=
  if count > cursor.length then none else some (cursor.drop count)

/-- `StreamCursor::next`, `none` for `Eof`.  A `char` of value 255 is `Eof` too. -/
def next : Bytes → Option UInt8
  | _ :: c :: _ => if c = eofChar then none else some c
  | _ => none

/-- `match_literal`, case insensitive. -/
def match_literal (c : UInt8) : Bytes → Option Bytes
  | [] => none
  | d :: cursor => if tolower c = tolower d then some cursor else none

/-- Compare the text behind the cursor with the entries of a table, the first one first. -/
def firstMatch {α : Type} (matches' : Bytes → Bytes → Option Bytes) (table : List (Bytes × α))
    (cursor : Bytes) : Option (α × Bytes) :=
  table.findSome? fun entry => (matches' entry.1 cursor).map fun rest => (entry.2, rest)

/-- `(void)match_until(chars, cursor)` with the token passed. -/
def tokenUntil (chars : List UInt8) (cursor : Bytes) : Bytes × Bytes :=
  (match_until chars cursor).getD (cursor, [])

/-! ## What is left behind the cursor -/

theorem advance_some {count : Nat} {cursor rest : Bytes} (h : advance count cursor = some rest) :
    count ≤ cursor.length ∧ rest = cursor.drop count := by
  unfold advance at h
  split at h
  · cases h
  · rename_i hle
    exact ⟨by omega, (Option.some.inj h).symm⟩

theorem advance_length {count : Nat} {cursor rest : Bytes} (h : advance count cursor = some rest) :
    rest.length + count = cursor.length := by
  obtain ⟨hle, rfl⟩ := advance_some h
  rw [List.length_drop]
  omega

theorem match_literal_length {c : UInt8} {cursor rest : Bytes}
    (h : match_literal c cursor = some rest) : rest.length + 1 = cursor.length := by
  cases cursor with
  | nil => cases h
  | cons d cursor =>
    rw [match_literal] at h
    split at h
    · rw [← Option.some.inj h]
      rfl
    · cases h

theorem match_raw_length {text cursor rest : Bytes} (h : match_raw text cursor = some rest) :
    rest.length + text.length = cursor.length := by
  rw [match_raw_iff.mp h, List.length_append]
  omega

theorem firstMatch_some {α : Type} {matches' : Bytes → Bytes → Option Bytes}
    {table : List (Bytes × α)} {cursor rest : Bytes} {value : α}
    (h : firstMatch matches' table cursor = some (value, rest)) :
    ∃ text, (text, value) ∈ table ∧ matches' text cursor = some rest := by
  obtain ⟨⟨text, v⟩, hmem, hmatch⟩ := List.exists_of_findSome?_eq_some h
  obtain ⟨r, hr, he⟩ := Option.map_eq_some_iff.mp hmatch
  cases he
  exact ⟨text, hmem, hr⟩

/-- An entry of a table without empty texts takes something from the input. -/
theorem firstMatch_length {α : Type} {matches' : Bytes → Bytes → Option Bytes}
    (hlength : ∀ {text cursor rest}, matches' text cursor = some rest →
      rest.length + text.length = cursor.length)
    {table : List (Bytes × α)} (htable : ∀ entry ∈ table, entry.1 ≠ []) {cursor rest : Bytes}
    {value : α} (h : firstMatch matches' table cursor = some (value, rest)) :
    rest.length < cursor.length := by
  obtain ⟨text, hmem, hr⟩ := firstMatch_some h
  have hpos := List.length_pos_iff.mpr (htable _ hmem)
  have hlen := hlength hr
  simp only at hpos
  omega

theorem tokenUntil_length (chars : List UInt8) (cursor : Bytes) :
    (tokenUntil chars cursor).2.length ≤ cursor.length := by
  unfold tokenUntil
  cases h : match_until chars cursor with
  | none => simp
  | some p =>
    obtain ⟨hxs, -⟩ := match_until_some h
    simp [hxs]

theorem next_some_length {cursor : Bytes} {c : UInt8} (h : next cursor = some c) :
    2 ≤ cursor.length := by
  match cursor, h with
  | _ :: _ :: _, _ => simp

end Pistache
