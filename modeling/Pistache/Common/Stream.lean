import Pistache.Common.Bytes
import Pistache.Lib.Scan

/-!
# The stream buffer and the cursor

`ArrayStreamBuf` holds the bytes fed so far, cut at the get pointer.  A function of the
source that moves a `StreamCursor` forward reads the bytes behind the get pointer and gives
back the rest of them; `ArrayStreamBuf.advanceTo` moves the pointer there.

* `matchUntil_append`, `untilEol_append` — what a cursor has found is found again when more
  bytes arrive.
-/

set_option autoImplicit false

namespace Pistache

/-! ## The buffer -/

/-- `ArrayStreamBuf`: the bytes in front of the get pointer and those from it on. -/
structure ArrayStreamBuf where
  read : Bytes
  unread : Bytes
  maxSize : Nat
  deriving DecidableEq, Repr

namespace ArrayStreamBuf

def new (maxSize : Nat) : ArrayStreamBuf := ⟨[], [], maxSize⟩

def bytes (buf : ArrayStreamBuf) : Bytes := buf.read ++ buf.unread

/-- `none` stands for the refusal, which leaves the buffer as it is. -/
def feed (buf : ArrayStreamBuf) (data : Bytes) : Option ArrayStreamBuf :=
  if buf.bytes.length + data.length > buf.maxSize then none
  else some { buf with unread := buf.unread ++ data }

def reset (buf : ArrayStreamBuf) : ArrayStreamBuf := { buf with read := [], unread := [] }

/-- Move the get pointer forward to where `rest` begins. -/
def advanceTo (buf : ArrayStreamBuf) (rest : Bytes) : ArrayStreamBuf :=
  { buf with
    read := buf.read ++ buf.unread.take (buf.unread.length - rest.length)
    unread := rest }

theorem feed_eq_some {buf buf' : ArrayStreamBuf} {data : Bytes} :
    buf.feed data = some buf' ↔ buf.bytes.length + data.length ≤ buf.maxSize ∧
      buf' = { buf with unread := buf.unread ++ data } := by
  unfold feed
  split
  · simp; omega
  · simp only [Option.some.injEq]
    constructor
    · rintro rfl; exact ⟨by omega, rfl⟩
    · rintro ⟨-, rfl⟩; rfl

@[simp] theorem advanceTo_unread (buf : ArrayStreamBuf) (rest : Bytes) :
    (buf.advanceTo rest).unread = rest := rfl

@[simp] theorem advanceTo_maxSize (buf : ArrayStreamBuf) (rest : Bytes) :
    (buf.advanceTo rest).maxSize = buf.maxSize := rfl

/-- Moving the pointer keeps the bytes. -/
theorem advanceTo_bytes (buf : ArrayStreamBuf) {rest : Bytes} (h : rest <:+ buf.unread) :
    (buf.advanceTo rest).bytes = buf.bytes := by
  obtain ⟨t, ht⟩ := h
  have hlen : buf.unread.length - rest.length = t.length := by
    rw [← ht, List.length_append]; omega
  simp only [bytes, advanceTo, hlen]
  rw [← ht, List.take_left, List.append_assoc]

/-- What is in front of the pointer depends on all of the bytes and the rest alone. -/
theorem advanceTo_eq (buf : ArrayStreamBuf) {rest : Bytes} (h : rest <:+ buf.unread) :
    buf.advanceTo rest = (⟨[], buf.bytes, buf.maxSize⟩ : ArrayStreamBuf).advanceTo rest := by
  obtain ⟨t, ht⟩ := h
  have hlen : buf.unread.length - rest.length = t.length := by
    rw [← ht, List.length_append]; omega
  have hall : buf.bytes = (buf.read ++ t) ++ rest := by
    rw [List.append_assoc, ht, bytes]
  have hlen' : buf.bytes.length - rest.length = (buf.read ++ t).length := by
    rw [hall, List.length_append]; omega
  simp only [advanceTo, hlen, hlen', List.nil_append]
  rw [hall, List.take_left, ← ht, List.take_left]

@[simp] theorem advanceTo_self (buf : ArrayStreamBuf) : buf.advanceTo buf.unread = buf := by
  simp [advanceTo]

end ArrayStreamBuf

/-! ## The cursor -/

/-- `StreamCursor::current`. -/
def current (cursor : Bytes) : UInt8 := cursor.headD eofChar

@[simp] theorem current_nil : current [] = eofChar := rfl
@[simp] theorem current_cons (c : UInt8) (cursor : Bytes) : current (c :: cursor) = c := rfl

theorem current_append {xs : Bytes} (h : xs ≠ []) (z : Bytes) : current (xs ++ z) = current xs := by
  cases xs with
  | nil => exact absurd rfl h
  | cons x xs => rfl

/-- `StreamCursor::eol`. -/
def eol (cursor : Bytes) : Bool := cursor.take 2 = [CR, LF]

/-- `match_until`, with the matched token. -/
def match_until (chars : List UInt8) (cursor : Bytes) : Option (Bytes × Bytes) :=
  Scan.scan (Scan.atHead (chars.contains ·)) cursor

/-- `while (!cursor.eol()) if (!cursor.advance(1)) return Again;` with the token passed. -/
def untilEol (cursor : Bytes) : Option (Bytes × Bytes) := Scan.scan eol cursor

/-- `match_raw`. -/
def match_raw (buf cursor : Bytes) : Option Bytes :=
  if cursor.length < buf.length then none
  else if cursor.take buf.length = buf then some (cursor.drop buf.length) else none

/-- `match_string`, case insensitive. -/
def match_string (str cursor : Bytes) : Option Bytes :=
  if cursor.length < str.length then none
  else if (str.map tolower) = (cursor.take str.length).map tolower then
    some (cursor.drop str.length)
  else none

/-- `skip_whitespaces`. -/
def skip_whitespaces (cursor : Bytes) : Bytes := cursor.dropWhile fun c => c = SP ∨ c = HT

/-! ## Stability -/

theorem eol_stable : Scan.Stable eol := by
  rintro a b s - hb
  match a, b, hb with
  | [], x :: y :: b, _ => simp [eol]
  | [x], y :: b, _ => simp [eol]
  | x :: y :: a, b, _ => simp [eol]
  | [], [x], hb => simp [eol] at hb
  | [], [], hb => simp [eol] at hb

theorem eol_iff {xs : Bytes} : eol xs = true ↔ ∃ rest, xs = CR :: LF :: rest := by
  match xs with
  | x :: y :: xs =>
    simp only [eol, List.take, decide_eq_true_eq, List.cons.injEq, and_true]
    constructor
    · rintro ⟨rfl, rfl⟩; exact ⟨xs, rfl, rfl, rfl⟩
    · rintro ⟨_, hx, hy, _⟩; exact ⟨hx, hy⟩
  | [x] => simp [eol]
  | [] => simp [eol]

@[simp] theorem eol_crlf (rest : Bytes) : eol (CR :: LF :: rest) = true := eol_iff.mpr ⟨rest, rfl⟩

theorem match_until_append {chars : List UInt8} {xs tok rest : Bytes}
    (h : match_until chars xs = some (tok, rest)) (s : Bytes) :
    match_until chars (xs ++ s) = some (tok, rest ++ s) :=
  Scan.scan_append (Scan.atHead_stable _) h s

theorem untilEol_append {xs tok rest : Bytes} (h : untilEol xs = some (tok, rest)) (s : Bytes) :
    untilEol (xs ++ s) = some (tok, rest ++ s) :=
  Scan.scan_append eol_stable h s

theorem match_until_some {chars : List UInt8} {xs tok rest : Bytes}
    (h : match_until chars xs = some (tok, rest)) :
    xs = tok ++ rest ∧ ∃ c rest', rest = c :: rest' ∧ c ∈ chars := by
  obtain ⟨hxs, hs, hne⟩ := Scan.scan_some h
  refine ⟨hxs, ?_⟩
  cases rest with
  | nil => exact absurd rfl hne
  | cons c rest => exact ⟨c, rest, rfl, by simpa [Scan.atHead] using hs⟩

theorem untilEol_some {xs tok rest : Bytes} (h : untilEol xs = some (tok, rest)) :
    xs = tok ++ rest ∧ ∃ rest', rest = CR :: LF :: rest' := by
  obtain ⟨hxs, hs, _⟩ := Scan.scan_some h
  exact ⟨hxs, eol_iff.mp hs⟩

theorem match_until_suffix {chars : List UInt8} {xs tok rest : Bytes}
    (h : match_until chars xs = some (tok, rest)) : rest <:+ xs :=
  ⟨tok, (match_until_some h).1.symm⟩

theorem untilEol_suffix {xs tok rest : Bytes} (h : untilEol xs = some (tok, rest)) : rest <:+ xs :=
  ⟨tok, (untilEol_some h).1.symm⟩

/-- An entry of a table is matched by what it is equal to but for the case of letters. -/
theorem match_string_iff {text cursor rest : Bytes} :
    match_string text cursor = some rest ↔
      ∃ p, cursor = p ++ rest ∧ p.map tolower = text.map tolower := by
  unfold match_string
  constructor
  · intro h
    split at h
    · cases h
    · split at h
      · next same =>
        cases h
        exact ⟨cursor.take text.length, (List.take_append_drop _ _).symm, same.symm⟩
      · cases h
  · rintro ⟨p, rfl, same⟩
    have length : p.length = text.length := by
      have := congrArg List.length same
      rwa [List.length_map, List.length_map] at this
    rw [if_neg (by rw [List.length_append]; omega), ← length, List.take_left, if_pos same.symm,
      List.drop_left]

theorem match_string_suffix {text cursor rest : Bytes} (h : match_string text cursor = some rest) :
    rest <:+ cursor := by
  obtain ⟨p, rfl, -⟩ := match_string_iff.mp h
  exact List.suffix_append p rest

theorem match_string_length {text cursor rest : Bytes} (h : match_string text cursor = some rest) :
    rest.length + text.length = cursor.length := by
  obtain ⟨p, rfl, same⟩ := match_string_iff.mp h
  have length := congrArg List.length same
  rw [List.length_map, List.length_map] at length
  rw [List.length_append]
  omega

theorem match_raw_append (text rest : Bytes) : match_raw text (text ++ rest) = some rest := by
  simp [match_raw]

theorem match_raw_iff {text cursor rest : Bytes} :
    match_raw text cursor = some rest ↔ cursor = text ++ rest := by
  constructor
  · intro h
    unfold match_raw at h
    split at h
    · cases h
    · split at h
      · next same =>
        cases h
        exact (List.take_append_drop text.length cursor).symm.trans (by rw [same])
      · cases h
  · rintro rfl
    exact match_raw_append text rest

theorem match_raw_ne {text other : Bytes} (hlen : text.length = other.length) (hne : other ≠ text)
    (rest : Bytes) : match_raw text (other ++ rest) = none := by
  simp [match_raw, hlen, hne]

theorem drop_suffix_of {c xs : Bytes} (h : c <:+ xs) (n : Nat) : c.drop n <:+ xs :=
  (List.drop_suffix n c).trans h

end Pistache
