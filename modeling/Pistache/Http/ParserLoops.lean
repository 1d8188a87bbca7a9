import Pistache.Http.Parser
import Pistache.Http.ValueBounds
import Pistache.Lib.Passes

/-!
# The loops of the parser

Every loop that a call of `parse` can enter, written as the source has it: the cursor is the bytes
behind it, and a pass ends where the source begins its next pass or leaves the loop.  Each loop
comes with the function that stands for it in the model of the steps, so that the model cannot
step over a loop that would not end.  The algorithms of the standard library (`std::find`,
`std::from_chars` and the like) are not loops of the source.

* `seek`, `skip` — the two ways in which the loops move a cursor byte by byte.
* `ParserLoop` — the loops.  Each of them is a `Passes.While`, so that it ends from every state
  with the value that the model takes.
-/

set_option autoImplicit false

namespace Pistache.Http

open Passes Resumable

variable {H L : Type}

/-! ## Moving a cursor byte by byte -/

@[simp] theorem advance_one_nil : advance 1 [] = none := rfl

@[simp] theorem advance_one_cons (c : UInt8) (cursor : Bytes) :
    advance 1 (c :: cursor) = some cursor := by
  simp [advance]

/-- `while (cond) if (!cursor.advance(1)) return State::Again;`, `none` for the return. -/
def seeking (cond : Bytes → Bool) : Body Bytes (Option Bytes) := fun cursor =>
  if cond cursor then
    match advance 1 cursor with
    | none => .inl none
    | some cursor => .inr cursor
  else .inl (some cursor)

/-- `while (cond) cursor.advance(1);`, which does not look at what `advance` returns. -/
def skipping (cond : Bytes → Bool) : Body Bytes Bytes := fun cursor =>
  if cond cursor then .inr ((advance 1 cursor).getD cursor) else .inl cursor

def seek (cond : Bytes → Bool) (outcome : Bytes → Option Bytes)
    (hnil : outcome [] = if cond [] then none else some [])
    (hcons : ∀ c cursor, outcome (c :: cursor) =
      if cond (c :: cursor) then outcome cursor else some (c :: cursor)) :
    While Bytes (Option Bytes) where
  body := seeking cond
  outcome := outcome
  passes := List.length
  exits := by
    intro cursor r h
    unfold seeking at h
    cases cursor with
    | nil =>
      rw [hnil]
      split at h
      · rename_i hc
        rw [if_pos hc]
        exact Sum.inl.inj h
      · rename_i hc
        rw [if_neg hc]
        exact Sum.inl.inj h
    | cons c cursor =>
      rw [hcons]
      split at h
      · rw [advance_one_cons] at h
        cases h
      · rename_i hc
        rw [if_neg hc]
        exact Sum.inl.inj h
  goesOn := by
    intro cursor cursor' h
    unfold seeking at h
    cases cursor with
    | nil =>
      split at h
      · cases h
      · cases h
    | cons c cursor =>
      rw [hcons]
      split at h
      · rename_i hc
        rw [advance_one_cons] at h
        obtain rfl := Sum.inr.inj h
        rw [if_pos hc]
        exact ⟨rfl, Nat.lt_succ_self _⟩
      · cases h

def skip (cond : Bytes → Bool) (outcome : Bytes → Bytes) (hend : cond [] = false)
    (hnil : outcome [] = [])
    (hcons : ∀ c cursor, outcome (c :: cursor) =
      if cond (c :: cursor) then outcome cursor else c :: cursor) : While Bytes Bytes where
  body := skipping cond
  outcome := outcome
  passes := List.length
  exits := by
    intro cursor r h
    unfold skipping at h
    split at h
    · cases h
    · rename_i hc
      obtain rfl := Sum.inl.inj h
      cases cursor with
      | nil => exact hnil
      | cons c cursor => rw [hcons, if_neg hc]
  goesOn := by
    intro cursor cursor' h
    unfold skipping at h
    split at h
    · rename_i hc
      cases cursor with
      | nil => rw [hend] at hc; cases hc
      | cons c cursor =>
        rw [advance_one_cons, Option.getD_some] at h
        obtain rfl := Sum.inr.inj h
        rw [hcons, if_pos hc]
        exact ⟨rfl, Nat.lt_succ_self _⟩
    · cases h

theorem scan_map_snd (stop : Bytes → Bool) (c : UInt8) (cursor : Bytes) :
    (Scan.scan stop (c :: cursor)).map Prod.snd =
      if stop (c :: cursor) then some (c :: cursor)
      else (Scan.scan stop cursor).map Prod.snd := by
  rw [Scan.scan]
  split
  · rfl
  · rw [Option.map_map]
    rfl

/-- One step of `match_until`. -/
theorem match_until_cons (chars : List UInt8) (c : UInt8) (cursor : Bytes) :
    (match_until chars (c :: cursor)).map Prod.snd =
      if chars.contains c then some (c :: cursor) else (match_until chars cursor).map Prod.snd :=
  scan_map_snd _ c cursor

/-! ## The stream -/

/-- `for (size_t i = 0; i < count; ++i) buf->sbumpc();` of `advance`.  At the end of the buffer
`sbumpc` leaves the get pointer where it is. -/
def advanceLoop (count : UInt64) : While (Nat × Bytes) Bytes where
  body := fun (i, cursor) => if i < count.toNat then .inr (i + 1, cursor.drop 1) else .inl cursor
  outcome := fun (i, cursor) => cursor.drop (count.toNat - i)
  passes := fun (i, _) => count.toNat - i
  exits := by
    rintro ⟨i, cursor⟩ r h
    dsimp only at h ⊢
    split at h
    · cases h
    · rename_i hi
      rw [show count.toNat - i = 0 by omega, List.drop_zero]
      exact Sum.inl.inj h
  goesOn := by
    rintro ⟨i, cursor⟩ ⟨i', cursor'⟩ h
    dsimp only at h ⊢
    split at h
    · simp only [Sum.inr.injEq, Prod.mk.injEq] at h
      obtain ⟨rfl, rfl⟩ := h
      rw [List.drop_drop, show 1 + (count.toNat - (i + 1)) = count.toNat - i by omega]
      exact ⟨rfl, by omega⟩
    · cases h

/-- The comparison of `match_string`, without case. -/
def matchChars : Bytes → Bytes → Bool
  | [], _ => true
  | c :: str, off => tolower c = tolower (off.headD 0) && matchChars str (off.drop 1)

/-- In a text that is long enough this is the comparison of the model. -/
theorem matchChars_eq : ∀ {str off : Bytes}, str.length ≤ off.length →
    (matchChars str off = true ↔ str.map tolower = (off.take str.length).map tolower)
  | [], _, _ => by simp [matchChars]
  | c :: str, [], h => by simp at h
  | c :: str, d :: off, h => by
    have ih := matchChars_eq (by simpa using h)
    rw [matchChars, Bool.and_eq_true, List.headD_cons, List.drop_one, List.tail_cons, ih,
      decide_eq_true_iff]
    simp only [List.map_cons, List.length_cons, List.take_succ_cons, List.cons.injEq]

/-- The loop of `match_string`, over the characters of `str` that are left. -/
def matchStringLoop : While (Bytes × Bytes) Bool where
  body
    | ([], _) => .inl true
    | (c :: str, off) =>
      if tolower c = tolower (off.headD 0) then .inr (str, off.drop 1) else .inl false
  outcome := fun (str, off) => matchChars str off
  passes := fun (str, _) => str.length
  exits := by
    rintro ⟨str, off⟩ r h
    cases str with
    | nil => exact Sum.inl.inj h
    | cons c str =>
      dsimp only at h
      split at h
      · cases h
      · rename_i hc
        simp only [matchChars, decide_eq_false hc, Bool.false_and]
        exact Sum.inl.inj h
  goesOn := by
    rintro ⟨str, off⟩ ⟨str', off'⟩ h
    cases str with
    | nil => cases h
    | cons c str =>
      dsimp only at h
      split at h
      · rename_i hc
        simp only [Sum.inr.injEq, Prod.mk.injEq] at h
        obtain ⟨rfl, rfl⟩ := h
        simp only [matchChars, decide_eq_true hc, Bool.true_and, List.length_cons]
        exact ⟨trivial, Nat.lt_succ_self _⟩
      · cases h

/-- `match_until`; at its end the cursor is in front of a character of `chars` or at the end. -/
def matchUntilLoop (chars : List UInt8) : While Bytes Bytes :=
  skip (fun cursor => cursor ≠ [] ∧ chars.contains (current cursor) = false)
    (fun cursor => ((match_until chars cursor).map Prod.snd).getD []) (by simp) rfl
    fun c cursor => by
      rw [match_until_cons]
      cases hc : chars.contains c with
      | true => rw [if_pos rfl, if_neg (by simpa using hc)]; rfl
      | false => rw [if_neg (by simp), if_pos (by simpa using hc)]

/-- `skip_whitespaces`. -/
def skipWhitespacesLoop : While Bytes Bytes :=
  skip (fun cursor => current cursor ≠ eofChar ∧ (current cursor = SP ∨ current cursor = HT))
    skip_whitespaces (by decide) rfl fun c cursor => by
      have hne : c = SP ∨ c = HT → c ≠ eofChar := by
        rintro (rfl | rfl) <;> decide
      rw [skip_whitespaces, List.dropWhile_cons, current_cons]
      by_cases hc : c = SP ∨ c = HT
      · rw [if_pos (decide_eq_true hc), if_pos (decide_eq_true ⟨hne hc, hc⟩), skip_whitespaces]
      · rw [if_neg (by simpa using hc), if_neg fun h => hc (of_decide_eq_true h).2]

/-! ## The lines of a message -/

/-- `while (!cursor.eol()) if (!cursor.advance(1)) return ..;`: behind the version of a request,
the value of a header and the size of a chunk. -/
def eolLoop : While Bytes (Option Bytes) :=
  seek (fun cursor => !eol cursor) (fun cursor => (untilEol cursor).map Prod.snd) rfl
    fun c cursor => by
      rw [untilEol, scan_map_snd, untilEol]
      cases eol (c :: cursor) <;> rfl

/-- The loop over the resource of a request. -/
def resourceLoop : While Bytes (Option Bytes) :=
  seek (fun cursor => current cursor ≠ RequestLineStep.questionMark ∧ current cursor ≠ SP)
    (fun cursor => (match_until [RequestLineStep.questionMark, SP] cursor).map Prod.snd) (by decide)
    fun c cursor => by
      rw [match_until_cons, current_cons]
      by_cases hc : c = RequestLineStep.questionMark ∨ c = SP
      · rw [if_pos (by simpa using hc), if_neg (by simpa [imp_iff_not_or] using hc)]
      · rw [if_neg (by simpa using hc), if_pos (by simpa using hc)]

/-- The loop over the query parameters of a request. -/
def queryLoop : While (Request H × Bytes) (Out State (Request H) UInt8) :=
  .ofRun RequestLineStep.queryBody (fun request cursor => ⟨.Again, request, cursor⟩)
    RequestLineStep.queryBody_shrinks

/-- The loop over the reason phrase of a response. -/
def reasonLoop : While Bytes Bytes :=
  skip (fun cursor => !eol cursor && !cursor.isEmpty)
    (fun cursor => ((untilEol cursor).map Prod.snd).getD []) rfl rfl fun c cursor => by
      rw [untilEol, scan_map_snd, untilEol]
      cases eol (c :: cursor) <;> rfl

/-- The loop over the name of a header. -/
def headerNameLoop : While Bytes (Option Bytes) :=
  seek (fun cursor => current cursor ≠ HeadersStep.colon)
    (fun cursor => (match_until [HeadersStep.colon] cursor).map Prod.snd) (by decide)
    fun c cursor => by
      rw [match_until_cons, current_cons]
      by_cases hc : c = HeadersStep.colon
      · rw [if_pos (by simpa using hc), if_neg (by simpa using hc)]
      · rw [if_neg (by simpa using hc), if_pos (by simpa using hc)]

/-- The loop over the spaces in front of the value of a header. -/
def headerSpacesLoop : While Bytes (Option Bytes) :=
  seek (fun cursor => current cursor = SP) (fun cursor => some (cursor.dropWhile (· = SP)))
    (by decide) fun c cursor => by
      rw [List.dropWhile_cons, current_cons]
      split <;> rfl

section

variable (registry : Registry H)

/-- The loop over the headers. -/
def headersLoop : While (Derived H L × Bytes) (Out State (Derived H L) UInt8) :=
  .ofRun (HeadersStep.body registry) (fun message cursor => ⟨.Again, message, cursor⟩)
    (HeadersStep.body_shrinks registry)

/-- The loop over the chunks of a body. -/
def chunkLoop : While ((Chunk × Message H) × Bytes) (Out State (Chunk × Message H) UInt8) :=
  .ofRun BodyStep.chunkBody (fun s cursor => ⟨.Again, s, cursor⟩) BodyStep.chunkBody_shrinks

/-- The loop of `ParserBase::parse` over the steps from the current one on.  A fourth step would
be one behind the end of `allSteps`. -/
def stepsLoop (line : Step (Derived H L)) :
    While ((Nat × Work H L) × Bytes) (Out State (Nat × Work H L) UInt8) where
  body := fun ((currentStep, work), cursor) =>
    match (Work.allSteps registry line)[currentStep]? with
    | none => .inl ⟨.Next, (currentStep, work), cursor⟩
    | some step =>
      let o := step work cursor
      if o.result = .Next then .inr ((currentStep + 1, o.state), o.rest)
      else .inl ⟨o.result, (currentStep, o.state), o.rest⟩
  outcome := fun (p, cursor) => Work.parse registry line p cursor
  passes := fun ((currentStep, _), _) => 3 - currentStep
  exits := by
    rintro ⟨⟨k, w⟩, cursor⟩ r h
    dsimp only at h ⊢
    rw [Work.parse, runChain]
    cases hstep : (Work.allSteps registry line)[k]? with
    | none =>
      rw [hstep] at h
      rw [List.drop_eq_nil_of_le (List.getElem?_eq_none_iff.mp hstep), chain]
      exact Sum.inl.inj h
    | some step =>
      obtain ⟨hk, rfl⟩ := List.getElem?_eq_some_iff.mp hstep
      rw [hstep] at h
      dsimp only at h
      rw [List.drop_eq_getElem_cons hk, chain]
      split at h
      · cases h
      · rename_i hnext
        rw [if_neg hnext]
        exact Sum.inl.inj h
  goesOn := by
    rintro ⟨⟨k, w⟩, cursor⟩ ⟨⟨k', w'⟩, cursor'⟩ h
    dsimp only at h ⊢
    simp only [Work.parse, runChain]
    cases hstep : (Work.allSteps registry line)[k]? with
    | none =>
      rw [hstep] at h
      cases h
    | some step =>
      obtain ⟨hk, rfl⟩ := List.getElem?_eq_some_iff.mp hstep
      rw [hstep] at h
      dsimp only at h
      rw [List.drop_eq_getElem_cons hk, chain]
      split at h
      · rename_i hnext
        simp only [Sum.inr.injEq, Prod.mk.injEq] at h
        obtain ⟨⟨rfl, rfl⟩, rfl⟩ := h
        rw [if_pos hnext]
        have hlen : (Work.allSteps registry line).length = 3 := rfl
        exact ⟨rfl, by omega⟩
      · cases h

end

/-! ## Cookies -/

/-- The loop of `CookieJar::addFromRaw`. -/
def addFromRawLoop : While (CookieJar × Bytes) (CookieJar × Option Exn) :=
  .ofRun CookieJar.addFromRawBody (fun jar _ => (jar, none)) CookieJar.addFromRawBody_shrinks

/-- The loop of `Cookie::fromRaw`. -/
def fromRawLoop (fullDate : Bytes → Except Exn FullDate) : While (Cookie × Bytes) (Except Exn Cookie) :=
  .ofRun (Cookie.fromRawBody fullDate) (fun cookie _ => .ok cookie)
    (Cookie.fromRawBody_shrinks fullDate)

/-- The loop of `strntol`, over the characters that are left. -/
def strntolLoop : While (Int32 × Bytes) (Except Exn Int32) where
  body
    | (ret, []) => .inl (.ok ret)
    | (ret, c :: text) =>
      if isdigit c then .inr (ret * 10 + (c.toNat - 48 : Nat).toInt32, text)
      else .inl (.error (.std "Invalid conversion"))
  outcome := fun (ret, text) => text.foldlM (fun ret c =>
    if isdigit c then .ok (ret * 10 + (c.toNat - 48 : Nat).toInt32)
    else .error (.std "Invalid conversion")) ret
  passes := fun (_, text) => text.length
  exits := by
    rintro ⟨ret, text⟩ r h
    cases text with
    | nil => exact Sum.inl.inj h
    | cons c text =>
      dsimp only at h
      split at h
      · cases h
      · rename_i hc
        simp only [List.foldlM_cons, if_neg hc]
        exact Sum.inl.inj h
  goesOn := by
    rintro ⟨ret, text⟩ ⟨ret', text'⟩ h
    cases text with
    | nil => cases h
    | cons c text =>
      dsimp only at h
      split at h
      · rename_i hc
        simp only [Sum.inr.injEq, Prod.mk.injEq] at h
        obtain ⟨rfl, rfl⟩ := h
        simp only [List.foldlM_cons, if_pos hc]
        exact ⟨rfl, Nat.lt_succ_self _⟩
      · cases h

/-! ## Qualities -/

theorem headD_drop (str : Bytes) (i : Nat) : (str.drop i).headD 0 = str.getD i 0 := by
  rw [List.headD_eq_head?_getD, List.head?_drop, List.getD_eq_getElem?_getD]

/-- A pass of the loop of `strToQvalue`, in the text. -/
theorem qvalueLen_drop (str : Bytes) {len : Nat} (hlen : len < 6) :
    Header.qvalueLen (6 - len) len (str.drop len) =
      if str.getD len 0 = Header.dot ∧ len ≠ 1 then none
      else if str.getD len 0 ≠ Header.dot ∧ isdigit (str.getD len 0) = false then some len
      else Header.qvalueLen (6 - (len + 1)) (len + 1) (str.drop (len + 1)) := by
  rw [show 6 - len = 6 - (len + 1) + 1 by omega, Header.qvalueLen, headD_drop, List.drop_drop]

/-- The loop of `strToQvalue`. -/
def qvalueLoop (str : Bytes) : While Nat (Option Nat) where
  body := fun qvalueLen =>
    if qvalueLen < 6 then
      let c := str.getD qvalueLen 0
      if c = Header.dot ∧ qvalueLen ≠ 1 then .inl none
      else if c ≠ Header.dot ∧ isdigit c = false then .inl (some qvalueLen)
      else .inr (qvalueLen + 1)
    else .inl (some qvalueLen)
  outcome := fun len => Header.qvalueLen (6 - len) len (str.drop len)
  passes := fun len => 6 - len
  exits := by
    intro len r h
    split at h
    · rename_i hlen
      dsimp only at h ⊢
      rw [qvalueLen_drop str hlen]
      split at h
      · rename_i hc
        rw [if_pos hc]
        exact Sum.inl.inj h
      · rename_i hc
        rw [if_neg hc]
        split at h
        · rename_i hd
          rw [if_pos hd]
          exact Sum.inl.inj h
        · cases h
    · rename_i hlen
      rw [Nat.sub_eq_zero_of_le (Nat.le_of_not_lt hlen)]
      exact Sum.inl.inj h
  goesOn := by
    intro len len' h
    split at h
    · rename_i hlen
      dsimp only at h ⊢
      rw [qvalueLen_drop str hlen]
      split at h
      · cases h
      · rename_i hc
        rw [if_neg hc]
        split at h
        · cases h
        · rename_i hd
          rw [if_neg hd]
          obtain rfl := Sum.inr.inj h
          exact ⟨rfl, Nat.sub_lt_sub_left hlen (Nat.lt_succ_self len)⟩
    · cases h

/-- The loop over the parameters of a media type. -/
def parameterLoop (behind : Bytes) : While (Mime.MediaType × Bytes) (Except Exn Mime.MediaType) :=
  .ofRun (Mime.MediaType.parameterBody behind) (fun media _ => .ok media)
    (Mime.MediaType.parameterBody_shrinks behind)

/-! ## Lists in the values of headers -/

/-- A loop over a table of caching directives, from the entries on that are left. -/
def directiveLoop (cursor : Bytes) : While (List (Bytes × Directive)) (Option (Directive × Bytes)) where
  body
    | [] => .inl none
    | (str, repr) :: table =>
      match match_raw str cursor with
      | some cursor => .inl (some (repr, cursor))
      | none => .inr table
  outcome := fun table => firstMatch match_raw table cursor
  passes := List.length
  exits := by
    intro table r h
    match table with
    | [] => exact Sum.inl.inj h
    | (str, repr) :: table =>
      dsimp only at h
      rw [firstMatch, List.findSome?_cons]
      cases hm : match_raw str cursor with
      | none => rw [hm] at h; cases h
      | some rest => rw [hm] at h; exact Sum.inl.inj h
  goesOn := by
    intro table table' h
    match table with
    | [] => cases h
    | (str, repr) :: table =>
      dsimp only at h
      rw [firstMatch, List.findSome?_cons]
      cases hm : match_raw str cursor with
      | none =>
        rw [hm] at h
        obtain rfl := Sum.inr.inj h
        exact ⟨rfl, Nat.lt_succ_self _⟩
      | some rest => rw [hm] at h; cases h

/-- The loop over commas and spaces behind a caching directive. -/
def commaLoop : While Bytes Bytes :=
  skip (fun cursor => current cursor ≠ eofChar ∧ (current cursor = comma ∨ current cursor = SP))
    (fun cursor => cursor.dropWhile fun c => c = comma ∨ c = SP) (by decide) rfl
    fun c cursor => by
      have hne : c = comma ∨ c = SP → c ≠ eofChar := by
        rintro (rfl | rfl) <;> decide
      rw [List.dropWhile_cons, current_cons]
      by_cases hc : c = comma ∨ c = SP
      · rw [if_pos (decide_eq_true hc), if_pos (decide_eq_true ⟨hne hc, hc⟩)]
      · rw [if_neg (by simpa using hc), if_neg fun h => hc (of_decide_eq_true h).2]

/-- The loop over caching directives. -/
def cacheControlLoop : While (List CacheDirective × Bytes) (Except Exn (List CacheDirective)) :=
  .ofRun CacheControl.body (fun directives_ _ => .ok directives_) CacheControl.body_shrinks

/-- Where the loop over the characters of a media range ends: at its last character. -/
def lastOfMime : Bytes → Bytes
  | [] => []
  | c :: cursor =>
    if next (c :: cursor) = none ∨ next (c :: cursor) = some comma then c :: cursor
    else lastOfMime cursor

/-- One more byte is passed behind that loop. -/
theorem mimeToken_lastOfMime : ∀ cursor : Bytes,
    (Accept.mimeToken cursor).2 = (lastOfMime cursor).drop 1
  | [] => rfl
  | c :: cursor => by
    rw [Accept.mimeToken, lastOfMime]
    split
    · rfl
    · exact mimeToken_lastOfMime cursor

/-- The loop over the characters of a media range. -/
def mimeLoop : While Bytes Bytes :=
  skip (fun cursor => next cursor ≠ none ∧ next cursor ≠ some comma) lastOfMime (by decide) rfl
    fun c cursor => by
      rw [lastOfMime]
      by_cases hc : next (c :: cursor) = none ∨ next (c :: cursor) = some comma
      · rw [if_pos hc, if_neg fun h => not_or.mpr (of_decide_eq_true h) hc]
      · rw [if_neg hc, if_pos (decide_eq_true (not_or.mp hc))]

/-- The loop over the spaces between two media ranges. -/
def acceptSpacesLoop : While Bytes Bytes :=
  skip (fun cursor => cursor ≠ [] ∧ current cursor = SP) (fun cursor => cursor.dropWhile (· = SP))
    (by decide) rfl fun c cursor => by
      rw [List.dropWhile_cons, current_cons]
      by_cases hc : c = SP
      · rw [if_pos (decide_eq_true hc), if_pos (decide_eq_true ⟨by simp, hc⟩)]
      · rw [if_neg (by simpa using hc), if_neg (by simpa using hc)]

/-- The loop over media ranges. -/
def acceptLoop (behind : Bytes) :
    While (List Mime.MediaType × Bytes) (Except Exn (List Mime.MediaType)) :=
  .ofRun (Accept.body behind) (fun mediaRange_ _ => .ok mediaRange_) (Accept.body_shrinks behind)

/-- The loop over encodings. -/
def acceptEncodingLoop (behind : Bytes) :
    While (List (Header.Encoding × Nat) × Bytes) (List (Header.Encoding × Nat)) :=
  .ofRun (AcceptEncoding.body behind) (fun encodings_ _ => encodings_)
    (AcceptEncoding.body_shrinks behind)

/-! ## All of them -/

/-- The loops of the source that `parse` can enter, with what does not change in a loop. -/
inductive ParserLoop where
  | advance (count : UInt64)
  | matchString
  | matchUntil (chars : List UInt8)
  | skipWhitespaces
  | resource
  | query
  | eol
  | reason
  | headerName
  | headerSpaces
  | headers
  | chunks
  | steps
  | addFromRaw
  | fromRaw
  | strntol
  | qvalue (str : Bytes)
  | parameters (behind : Bytes)
  | directive (cursor : Bytes)
  | commas
  | cacheControl
  | mime
  | acceptSpaces
  | accept (behind : Bytes)
  | acceptEncoding (behind : Bytes)

/-- A loop with its types. -/
structure SourceLoop where
  State : Type
  Result : Type
  loop : While State Result

/-- The loop of the source, in a parser with the registry and the first step given. -/
def ParserLoop.source (registry : Registry H) (line : Step (Derived H L)) :
    ParserLoop → SourceLoop
  | advance count => ⟨_, _, advanceLoop count⟩
  | matchString => ⟨_, _, matchStringLoop⟩
  | matchUntil chars => ⟨_, _, matchUntilLoop chars⟩
  | skipWhitespaces => ⟨_, _, skipWhitespacesLoop⟩
  | resource => ⟨_, _, resourceLoop⟩
  | query => ⟨_, _, queryLoop (H := H)⟩
  | eol => ⟨_, _, eolLoop⟩
  | reason => ⟨_, _, reasonLoop⟩
  | headerName => ⟨_, _, headerNameLoop⟩
  | headerSpaces => ⟨_, _, headerSpacesLoop⟩
  | headers => ⟨_, _, headersLoop registry (L := L)⟩
  | chunks => ⟨_, _, chunkLoop (H := H)⟩
  | steps => ⟨_, _, stepsLoop registry line⟩
  | addFromRaw => ⟨_, _, addFromRawLoop⟩
  | fromRaw => ⟨_, _, fromRawLoop registry.fullDate⟩
  | strntol => ⟨_, _, strntolLoop⟩
  | qvalue str => ⟨_, _, qvalueLoop str⟩
  | parameters behind => ⟨_, _, parameterLoop behind⟩
  | directive cursor => ⟨_, _, directiveLoop cursor⟩
  | commas => ⟨_, _, commaLoop⟩
  | cacheControl => ⟨_, _, cacheControlLoop⟩
  | mime => ⟨_, _, mimeLoop⟩
  | acceptSpaces => ⟨_, _, acceptSpacesLoop⟩
  | accept behind => ⟨_, _, acceptLoop behind⟩
  | acceptEncoding behind => ⟨_, _, acceptEncodingLoop behind⟩

end Pistache.Http
