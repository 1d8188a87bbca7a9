import Mathlib.Tactic.Common
import Pistache.Http.Message
import Pistache.Http.Steps

/-!
# The body step

`BodyStep` with its two private fields: the number of bytes read of a body of declared length,
and the partially read chunk.  `PartialChunk` carries what holds of every chunk that
`Chunk::parse` leaves behind; no chunk is the size `-1` of the source.

* `Chunk.NotCut` — the chunk has not been left between the CR and the LF behind its data.
* `BodyStep.settles`, `BodyStep.resumes` — from such states a body that arrives in pieces is
  read as if it had arrived whole.
-/

set_option autoImplicit false

namespace Pistache.Http

open Resumable

variable {H : Type}

/-- `std::string::max_size`. -/
def stringMaxSize : Nat := 2 ^ 62 - 1

/-- A chunk whose size has been read.  Its data is appended to the body as it arrives, and
when it is incomplete a CR behind the data is appended and counted as well. -/
structure PartialChunk where
  size : Nat
  alreadyAppendedChunkBytes : Nat
  size_pos : 0 < size
  size_le : size ≤ stringMaxSize
  already_le : alreadyAppendedChunkBytes ≤ size + 1
  deriving DecidableEq

/-- `alreadyAppendedChunkBytes += available`. -/
def PartialChunk.grow (c : PartialChunk) (available : Nat)
    (h : available + c.alreadyAppendedChunkBytes < c.size + 2) : PartialChunk :=
  { c with
    alreadyAppendedChunkBytes := c.alreadyAppendedChunkBytes + available
    already_le := by omega }

abbrev Chunk := Option PartialChunk

namespace Chunk

inductive Result where
  | Complete
  | Incomplete
  | Final
  | thrown (e : Exn)
  deriving DecidableEq

/-- The size line: the size or the exception, and what stands behind the line. -/
def sizeLine (cursor : Bytes) : Option (Except Exn Nat × Bytes) :=
  match untilEol cursor with
  | none => none
  | some (chunkSize, rest) =>
    match from_chars 16 chunkSize with
    | .ok (sz, ptr) =>
      if current (ptr ++ rest) = CR then some (.ok sz, rest.drop 2)
      else some (.error (.std "Invalid chunk size"), rest.drop 2)
    | .error _ => some (.error (.std "Invalid chunk size"), rest.drop 2)

/-- `Chunk::parse` once the size is known and not zero. -/
def parseData (chunk : PartialChunk) (message : Message H) (cursor : Bytes) :
    Out Result (Chunk × Message H) UInt8 :=
  if h : cursor.length + chunk.alreadyAppendedChunkBytes < chunk.size + 2 then
    ⟨.Incomplete, (some (chunk.grow cursor.length h), message.append cursor), []⟩
  else if chunk.alreadyAppendedChunkBytes ≤ chunk.size then
    let missing := chunk.size - chunk.alreadyAppendedChunkBytes
    ⟨.Complete, (some chunk, message.append (cursor.take missing)), cursor.drop (missing + 2)⟩
  else
    -- `size - alreadyAppendedChunkBytes` is minus one: `advance` takes it for a huge count and
    -- runs to the end, `append` refuses it
    ⟨.thrown (.std "basic_string::append"), (some chunk, message), []⟩

/-- `Chunk::parse`.  A size line that is not there yet, or is invalid, is left unread. -/
def parse (chunk : Chunk) (message : Message H) (cursor : Bytes) :
    Out Result (Chunk × Message H) UInt8 :=
  match chunk with
  | some chunk => parseData chunk message cursor
  | none =>
    match sizeLine cursor with
    | none => ⟨.Incomplete, (none, message), cursor⟩
    | some (.error e, _) => ⟨.thrown e, (none, message), cursor⟩
    | some (.ok size, rest) =>
      if hpos : 0 < size then
        -- `message->body_.reserve(size)`
        if hle : size ≤ stringMaxSize then parseData ⟨size, 0, hpos, hle, by omega⟩ message rest
        else ⟨.thrown (.std "basic_string::_M_create"), (none, message), rest⟩
      else ⟨.Final, (none, message), rest⟩

/-- The chunk has not been left between the CR and the LF behind its data. -/
def NotCut (chunk : Chunk) : Prop := ∀ c, chunk = some c → c.alreadyAppendedChunkBytes ≤ c.size

theorem notCut_none : NotCut none := fun _ h => absurd h.symm (Option.some_ne_none _)

instance (chunk : Chunk) : Decidable chunk.NotCut :=
  match chunk with
  | none => .isTrue fun _ h => by cases h
  | some c =>
    if h : c.alreadyAppendedChunkBytes ≤ c.size then
      .isTrue fun d hd => by cases hd; exact h
    else .isFalse fun hn => h (hn c rfl)

end Chunk

/-- The private fields of `BodyStep`. -/
structure BodyStep where
  bytesRead : UInt64 := 0
  chunk : Chunk := none
  deriving DecidableEq

namespace BodyStep

/-- `parseContentLength`.  The subtraction of the source is one of `uint64_t`. -/
def parseContentLength (contentLength : UInt64) : Step (BodyStep × Message H) :=
  fun (step, message) cursor =>
    let size := (if step.bytesRead > 0 then contentLength - step.bytesRead else contentLength).toNat
    if cursor.length < size then
      ⟨.Again,
        ({ step with bytesRead := step.bytesRead + UInt64.ofNat cursor.length },
          message.append cursor), []⟩
    else ⟨.Done, ({ step with bytesRead := 0 }, message.append (cursor.take size)), cursor.drop size⟩

/-- What the loop of `parseTransferEncoding` does with the outcome of `Chunk::parse`; the chunk
is reset unless it is incomplete. -/
def ofChunk (o : Out Chunk.Result (Chunk × Message H) UInt8) :
    Out State (Chunk × Message H) UInt8 ⊕ ((Chunk × Message H) × Bytes) :=
  match o.result with
  | .Final => .inl ⟨.Done, (none, o.state.2), o.rest⟩
  | .Incomplete => .inl ⟨.Again, o.state, o.rest⟩
  | .Complete =>
    if o.rest = [] then .inl ⟨.Again, (none, o.state.2), o.rest⟩
    else .inr ((none, o.state.2), o.rest)
  | .thrown e => .inl ⟨.thrown (raise e.what .Bad_Request), (none, o.state.2), o.rest⟩

def chunkBody : Loop.Body (Chunk × Message H) UInt8 (Out State (Chunk × Message H) UInt8) :=
  fun s cursor => ofChunk (s.1.parse s.2 cursor)

def parseChunks : Step (Chunk × Message H) :=
  Loop.run chunkBody fun s cursor => ⟨.Again, s, cursor⟩

/-- The part of the state that the chunks work on. -/
def chunkOf (s : BodyStep × Message H) : Chunk × Message H := (s.1.chunk, s.2)
def setChunk (c : Chunk × Message H) (s : BodyStep × Message H) : BodyStep × Message H :=
  ({ s.1 with chunk := c.1 }, c.2)

/-- `parseTransferEncoding`. -/
def parseTransferEncoding (encoding : Header.Encoding) : Step (BodyStep × Message H) :=
  fun s cursor =>
    if encoding = .Chunked then lift chunkOf setChunk parseChunks s cursor
    else ⟨.thrown (raise "Unsupported Transfer-Encoding" .Not_Implemented), s, cursor⟩

def apply : Step (BodyStep × Message H) := fun s cursor =>
  match s.2.headers_.contentLength, s.2.headers_.transferEncoding with
  | some _, some _ =>
    ⟨.thrown
      (raise "Got mutually exclusive ContentLength and TransferEncoding header" .Bad_Request),
      s, cursor⟩
  | some cl, none => parseContentLength cl s cursor
  | none, some te => parseTransferEncoding te s cursor
  | none, none => ⟨.Done, s, cursor⟩

end BodyStep

/-! ## One chunk -/

namespace Chunk

theorem sizeLine_some {xs rest : Bytes} {r : Except Exn Nat} (h : sizeLine xs = some (r, rest)) :
    ∃ text, xs = text ++ CR :: LF :: rest := by
  unfold sizeLine at h
  split at h
  · cases h
  · rename_i text cursor hu
    obtain ⟨hxs, rest', rfl⟩ := untilEol_some hu
    have : rest' = rest := by
      split at h
      · split at h <;>
          simpa using congrArg Prod.snd (Option.some.inj h)
      · simpa using congrArg Prod.snd (Option.some.inj h)
    exact ⟨text, by rw [hxs, this]⟩

theorem sizeLine_append {xs rest : Bytes} {r : Except Exn Nat} (h : sizeLine xs = some (r, rest))
    (z : Bytes) : sizeLine (xs ++ z) = some (r, rest ++ z) := by
  unfold sizeLine at h ⊢
  split at h
  · cases h
  · rename_i text cursor hu
    obtain ⟨hxs, rest', rfl⟩ := untilEol_some hu
    rw [untilEol_append hu z]
    dsimp only
    cases hf : from_chars 16 text with
    | error e =>
      simp only [hf, List.drop_succ_cons, List.drop_zero, Option.some.injEq, Prod.mk.injEq] at h
      obtain ⟨rfl, rfl⟩ := h
      rfl
    | ok p =>
      obtain ⟨sz, ptr⟩ := p
      have hcur : current (ptr ++ (CR :: LF :: rest' ++ z)) = current (ptr ++ CR :: LF :: rest') := by
        rw [← List.append_assoc]
        exact current_append (by simp) z
      simp only [hf] at h
      dsimp only
      rw [hcur]
      split at h
      · rename_i hc
        simp only [List.drop_succ_cons, List.drop_zero, Option.some.injEq, Prod.mk.injEq] at h
        obtain ⟨rfl, rfl⟩ := h
        rw [if_pos hc]
        rfl
      · rename_i hc
        simp only [List.drop_succ_cons, List.drop_zero, Option.some.injEq, Prod.mk.injEq] at h
        obtain ⟨rfl, rfl⟩ := h
        rw [if_neg hc]
        rfl

/-- The three ways in which the data of a chunk is read. -/
theorem parseData_cases (c : PartialChunk) (message : Message H) (xs : Bytes) :
    (∃ h, parseData c message xs =
      ⟨.Incomplete, (some (c.grow xs.length h), message.append xs), []⟩) ∨
    (c.size + 2 ≤ xs.length + c.alreadyAppendedChunkBytes ∧
      c.alreadyAppendedChunkBytes ≤ c.size ∧
      parseData c message xs =
        ⟨.Complete, (some c, message.append (xs.take (c.size - c.alreadyAppendedChunkBytes))),
          xs.drop (c.size - c.alreadyAppendedChunkBytes + 2)⟩) ∨
    (c.size < c.alreadyAppendedChunkBytes ∧ xs ≠ [] ∧
      parseData c message xs = ⟨.thrown (.std "basic_string::append"), (some c, message), []⟩) := by
  unfold parseData
  by_cases h : xs.length + c.alreadyAppendedChunkBytes < c.size + 2
  · exact .inl ⟨h, by rw [dif_pos h]⟩
  · rw [dif_neg h]
    by_cases ha : c.alreadyAppendedChunkBytes ≤ c.size
    · rw [if_pos ha]
      exact .inr (.inl ⟨by omega, ha, rfl⟩)
    · rw [if_neg ha]
      have := c.already_le
      refine .inr (.inr ⟨by omega, ?_, rfl⟩)
      rintro rfl
      simp at h
      omega

theorem parseData_more {c : PartialChunk} {message : Message H} {xs : Bytes}
    (hc : c.alreadyAppendedChunkBytes ≤ c.size)
    (h : (parseData c message xs).result ≠ .Incomplete) (z : Bytes) :
    parseData c message (xs ++ z) = (parseData c message xs).more z := by
  rcases parseData_cases c message xs with ⟨_, he⟩ | ⟨hlen, -, he⟩ | ⟨hlt, -, -⟩
  · rw [he] at h; exact absurd rfl h
  · have hnot : ¬(xs ++ z).length + c.alreadyAppendedChunkBytes < c.size + 2 := by
      rw [List.length_append]; omega
    rw [he, parseData, dif_neg hnot, if_pos hc]
    simp only [Out.more_mk]
    rw [List.take_append_of_le_length (by omega), List.drop_append_of_le_length (by omega)]
  · omega

/-- A chunk whose data has been appended in part goes on like one that is read whole. -/
theorem ofChunk_parseData_grow {c : PartialChunk} {message : Message H} {xs : Bytes}
    (h : xs.length + c.alreadyAppendedChunkBytes < c.size + 2)
    (hok : c.alreadyAppendedChunkBytes + xs.length ≤ c.size) (z : Bytes) :
    BodyStep.ofChunk (parseData (c.grow xs.length h) (message.append xs) z) =
      BodyStep.ofChunk (parseData c message (xs ++ z)) := by
  by_cases hz : z.length + (c.alreadyAppendedChunkBytes + xs.length) < c.size + 2
  · have hz' : (xs ++ z).length + c.alreadyAppendedChunkBytes < c.size + 2 := by
      rw [List.length_append]; omega
    have hl : parseData (c.grow xs.length h) (message.append xs) z =
        ⟨.Incomplete, (some ((c.grow xs.length h).grow z.length hz),
          (message.append xs).append z), []⟩ := dif_pos hz
    have hr : parseData c message (xs ++ z) =
        ⟨.Incomplete, (some (c.grow (xs ++ z).length hz'), message.append (xs ++ z)), []⟩ :=
      dif_pos hz'
    have hgrow : (c.grow xs.length h).grow z.length hz = c.grow (xs ++ z).length hz' := by
      simp only [PartialChunk.grow, List.length_append, Nat.add_assoc]
    rw [hl, hr, hgrow, Message.append_append]
  · have hz' : ¬(xs ++ z).length + c.alreadyAppendedChunkBytes < c.size + 2 := by
      rw [List.length_append]; omega
    have hl : parseData (c.grow xs.length h) (message.append xs) z =
        ⟨.Complete, (some (c.grow xs.length h), (message.append xs).append
          (z.take (c.size - (c.alreadyAppendedChunkBytes + xs.length)))),
          z.drop (c.size - (c.alreadyAppendedChunkBytes + xs.length) + 2)⟩ :=
      (dif_neg hz).trans (if_pos hok)
    have hr : parseData c message (xs ++ z) =
        ⟨.Complete, (some c, message.append ((xs ++ z).take (c.size - c.alreadyAppendedChunkBytes))),
          (xs ++ z).drop (c.size - c.alreadyAppendedChunkBytes + 2)⟩ :=
      (dif_neg hz').trans (if_pos (by omega))
    have htake : (xs ++ z).take (c.size - c.alreadyAppendedChunkBytes) =
        xs ++ z.take (c.size - (c.alreadyAppendedChunkBytes + xs.length)) := by
      rw [List.take_append, List.take_of_length_le (by omega)]
      congr 2; omega
    have hdrop : (xs ++ z).drop (c.size - c.alreadyAppendedChunkBytes + 2) =
        z.drop (c.size - (c.alreadyAppendedChunkBytes + xs.length) + 2) := by
      rw [List.drop_append, List.drop_of_length_le (by omega), List.nil_append]
      congr 1; omega
    rw [hl, hr, htake, hdrop, Message.append_append]
    rfl

theorem parseData_forward (c : PartialChunk) (message : Message H) (xs : Bytes) :
    (parseData c message xs).rest <:+ xs := by
  rcases parseData_cases c message xs with ⟨_, he⟩ | ⟨-, -, he⟩ | ⟨-, -, he⟩
  · rw [he]; exact List.nil_suffix
  · rw [he]; exact List.drop_suffix _ _
  · rw [he]; exact List.nil_suffix

theorem parse_forward (chunk : Chunk) (message : Message H) (xs : Bytes) :
    (parse chunk message xs).rest <:+ xs := by
  unfold parse
  split
  · exact parseData_forward _ _ _
  · split
    · exact List.suffix_refl _
    · exact List.suffix_refl _
    · rename_i size rest hs
      obtain ⟨text, hxs⟩ := sizeLine_some hs
      have hrest : rest <:+ xs := ⟨text ++ [CR, LF], by rw [hxs]; simp⟩
      split
      · split
        · exact (parseData_forward _ _ _).trans hrest
        · exact hrest
      · exact hrest

/-- A complete chunk takes something from the input. -/
theorem parse_complete_lt {chunk : Chunk} {message : Message H} {xs : Bytes}
    (h : (parse chunk message xs).result = .Complete) :
    (parse chunk message xs).rest.length < xs.length := by
  have hdata : ∀ (c : PartialChunk) (ys : Bytes), (parseData c message ys).result = .Complete →
      (parseData c message ys).rest.length < ys.length := by
    intro c ys hc
    rcases parseData_cases c message ys with ⟨_, he⟩ | ⟨hlen, hle, he⟩ | ⟨-, -, he⟩
    · rw [he] at hc; cases hc
    · rw [he, List.length_drop]; omega
    · rw [he] at hc; cases hc
  unfold parse at h ⊢
  split
  · rename_i c
    exact hdata c xs h
  · split
    · rename_i hs; simp [hs] at h
    · rename_i hs; simp [hs] at h
    · rename_i size rest hs
      obtain ⟨text, hxs⟩ := sizeLine_some hs
      simp only [hs] at h
      have hlen := congrArg List.length hxs
      simp only [List.length_append, List.length_cons] at hlen
      split
      · rename_i hpos
        rw [dif_pos hpos] at h
        split
        · rename_i hle
          rw [dif_pos hle] at h
          have := hdata _ rest h
          omega
        · rename_i hle; rw [dif_neg hle] at h; cases h
      · rename_i hpos; rw [dif_neg hpos] at h; cases h

theorem parse_more {chunk : Chunk} {message : Message H} {xs : Bytes} (hc : chunk.NotCut)
    (h : (parse chunk message xs).result ≠ .Incomplete) (z : Bytes) :
    parse chunk message (xs ++ z) = (parse chunk message xs).more z := by
  cases chunk with
  | some c => exact parseData_more (hc c rfl) h z
  | none =>
    unfold parse at h ⊢
    cases hs : sizeLine xs with
    | none => simp [hs] at h
    | some p =>
      obtain ⟨r, rest⟩ := p
      rw [sizeLine_append hs z]
      cases r with
      | error e => rfl
      | ok size =>
        simp only [hs] at h ⊢
        by_cases hpos : 0 < size
        · by_cases hle : size ≤ stringMaxSize
          · simp only [dif_pos hpos, dif_pos hle] at h ⊢
            exact parseData_more (Nat.zero_le _) h z
          · simp only [dif_pos hpos, dif_neg hle]
            rfl
        · simp only [dif_neg hpos]
          rfl

/-- What `Chunk::parse` leaves when it is incomplete: nothing has happened, or the data of a
chunk is there in part. -/
theorem parse_incomplete {chunk : Chunk} {message : Message H} {xs : Bytes}
    (h : (parse chunk message xs).result = .Incomplete) :
    parse chunk message xs = ⟨.Incomplete, (chunk, message), xs⟩ ∨
    ∃ (c : PartialChunk) (ys : Bytes) (hlt : ys.length + c.alreadyAppendedChunkBytes < c.size + 2),
      parse chunk message xs = ⟨.Incomplete, (some (c.grow ys.length hlt), message.append ys), []⟩ ∧
      ∀ z, parse chunk message (xs ++ z) = parseData c message (ys ++ z) := by
  have hdata : ∀ (c : PartialChunk) (ys : Bytes), (parseData c message ys).result = .Incomplete →
      ∃ hlt, parseData c message ys =
        ⟨.Incomplete, (some (c.grow ys.length hlt), message.append ys), []⟩ := by
    intro c ys hc
    rcases parseData_cases c message ys with ⟨hlt, he⟩ | ⟨-, -, he⟩ | ⟨-, -, he⟩
    · exact ⟨hlt, he⟩
    · rw [he] at hc; cases hc
    · rw [he] at hc; cases hc
  cases chunk with
  | some c =>
    obtain ⟨hlt, he⟩ := hdata c xs h
    exact .inr ⟨c, xs, hlt, he, fun _ => rfl⟩
  | none =>
    cases hs : sizeLine xs with
    | none => exact .inl (by simp [parse, hs])
    | some p =>
      obtain ⟨r, rest⟩ := p
      have hz := sizeLine_append hs
      cases r with
      | error e => simp [parse, hs] at h
      | ok size =>
        by_cases hpos : 0 < size
        · by_cases hle : size ≤ stringMaxSize
          · have hp : ∀ z, parse none message (xs ++ z) =
                parseData ⟨size, 0, hpos, hle, by omega⟩ message (rest ++ z) := fun z => by
              simp only [parse, hz z, dif_pos hpos, dif_pos hle]
            have h₀ := hp []
            simp only [List.append_nil] at h₀
            rw [h₀] at h ⊢
            obtain ⟨hlt, he⟩ := hdata _ rest h
            exact .inr ⟨_, rest, hlt, he, hp⟩
          · simp [parse, hs, hpos, hle] at h
        · simp [parse, hs, hpos] at h

end Chunk

/-! ## The chunks -/

namespace BodyStep

theorem chunkBody_shrinks : Loop.Shrinks (chunkBody (H := H)) := by
  rintro ⟨chunk, m⟩ xs s' xs' h
  unfold chunkBody ofChunk at h
  dsimp only at h
  split at h
  · cases h
  · cases h
  · rename_i hc
    split at h
    · cases h
    · obtain ⟨-, rfl⟩ := Prod.mk.inj (Sum.inr.inj h)
      exact Chunk.parse_complete_lt hc
  · cases h

theorem chunkBody_nil (m : Message H) :
    chunkBody (none, m) [] = .inl ⟨.Again, (none, m), []⟩ := by
  simp [chunkBody, Chunk.parse, Chunk.sizeLine, untilEol, Scan.scan, ofChunk]

theorem chunkBody_resuming : ResumingBody State.Again (fun s => s.1.NotCut) (chunkBody (H := H))
    (fun s cursor => ⟨.Again, s, cursor⟩) where
  next := by
    rintro ⟨chunk, m⟩ xs s' xs' hs h
    dsimp only at hs
    unfold chunkBody ofChunk at h
    dsimp only at h
    split at h
    · cases h
    · cases h
    · rename_i hc
      split at h
      · cases h
      · rename_i hne
        obtain ⟨rfl, rfl⟩ := Prod.mk.inj (Sum.inr.inj h)
        refine ⟨Chunk.notCut_none, fun z => ?_⟩
        have hmore := Chunk.parse_more hs (by rw [hc]; simp) z
        simp [chunkBody, ofChunk, hmore, hc, hne]
    · cases h
  stop := by
    rintro ⟨chunk, m⟩ xs o hs h ho z
    dsimp only at hs
    unfold chunkBody ofChunk at h
    dsimp only at h
    split at h
    · rename_i hc
      have hmore := Chunk.parse_more hs (by rw [hc]; simp) z
      obtain rfl := Sum.inl.inj h
      simp [chunkBody, ofChunk, hmore, hc]
    · obtain rfl := Sum.inl.inj h
      exact absurd rfl ho
    · split at h
      · obtain rfl := Sum.inl.inj h
        exact absurd rfl ho
      · cases h
    · rename_i hc
      have hmore := Chunk.parse_more hs (by rw [hc]; simp) z
      obtain rfl := Sum.inl.inj h
      simp [chunkBody, ofChunk, hmore, hc]
  wait := by
    rintro ⟨chunk, m⟩ xs o hs h ho hok z
    dsimp only at hs
    unfold chunkBody ofChunk at h
    dsimp only at h
    split at h
    · obtain rfl := Sum.inl.inj h
      cases ho
    · rename_i hc
      obtain rfl := Sum.inl.inj h
      rcases Chunk.parse_incomplete hc with he | ⟨c, ys, hlt, he, hz⟩
      · rw [he]
      · rw [he] at hok ⊢
        have hle := hok _ rfl
        rw [Loop.run_eq chunkBody_shrinks, Loop.run_eq chunkBody_shrinks]
        have hbody : chunkBody (some (c.grow ys.length hlt), m.append ys) ([] ++ z) =
            chunkBody (chunk, m) (xs ++ z) := by
          unfold chunkBody
          dsimp only
          rw [hz z, List.nil_append]
          exact Chunk.ofChunk_parseData_grow hlt hle z
        rw [hbody]
    · rename_i hc
      split at h
      · rename_i hnil
        obtain rfl := Sum.inl.inj h
        have hmore := Chunk.parse_more hs (by rw [hc]; simp) z
        dsimp only
        rw [hnil, List.nil_append, Loop.run_eq chunkBody_shrinks _ (chunk, m)]
        by_cases hz : z = []
        · subst hz
          rw [Loop.run_eq chunkBody_shrinks, chunkBody_nil]
          simp [chunkBody, ofChunk, hc, hnil]
        · simp [chunkBody, ofChunk, hmore, hc, hnil, hz]
      · cases h
    · obtain rfl := Sum.inl.inj h
      cases ho

/-- The step can go on from here: its chunk has not been left between CR and LF. -/
def NotCut (s : BodyStep × Message H) : Prop := s.1.chunk.NotCut

/-- What is still missing of a body of declared length. -/
def missing (cl : UInt64) (step : BodyStep) : UInt64 := cl - step.bytesRead

/-- The case distinction of the source makes no difference: nothing read is zero bytes read. -/
theorem parseContentLength_eq (cl : UInt64) (step : BodyStep) (m : Message H) (xs : Bytes) :
    parseContentLength cl (step, m) xs =
      if xs.length < (missing cl step).toNat then
        ⟨.Again, ({ step with bytesRead := step.bytesRead + UInt64.ofNat xs.length }, m.append xs), []⟩
      else
        ⟨.Done, ({ step with bytesRead := 0 }, m.append (xs.take (missing cl step).toNat)),
          xs.drop (missing cl step).toNat⟩ := by
  have hsize : (if step.bytesRead > 0 then cl - step.bytesRead else cl) = missing cl step := by
    split
    · rfl
    · rename_i h
      have h0 : step.bytesRead = 0 := by
        apply UInt64.toNat.inj
        have : ¬ 0 < step.bytesRead.toNat := by simpa [UInt64.lt_iff_toNat_lt] using h
        simpa using this
      rw [missing, h0, UInt64.sub_zero]
  unfold parseContentLength
  dsimp only
  rw [hsize]

theorem parseContentLength_settles (cl : UInt64) (s : BodyStep × Message H) (xs z : Bytes)
    (h : (parseContentLength cl s xs).result ≠ .Again) :
    parseContentLength cl s (xs ++ z) = (parseContentLength cl s xs).more z := by
  obtain ⟨step, m⟩ := s
  rw [parseContentLength_eq] at h
  rw [parseContentLength_eq, parseContentLength_eq]
  by_cases hlt : xs.length < (missing cl step).toNat
  · rw [if_pos hlt] at h
    exact absurd rfl h
  · rw [if_neg (by rw [List.length_append]; omega), if_neg hlt, Out.more_mk,
      List.take_append_of_le_length (by omega), List.drop_append_of_le_length (by omega)]

/-- Reading fewer bytes than are missing. -/
theorem missing_add {cl : UInt64} {step : BodyStep} {n : Nat} (h : n < (missing cl step).toNat) :
    (missing cl { step with bytesRead := step.bytesRead + UInt64.ofNat n }).toNat =
      (missing cl step).toNat - n := by
  have hn : (UInt64.ofNat n).toNat = n := by
    rw [UInt64.toNat_ofNat']
    exact Nat.mod_eq_of_lt (h.trans (UInt64.toNat_lt _))
  have hsub : missing cl { step with bytesRead := step.bytesRead + UInt64.ofNat n } =
      missing cl step - UInt64.ofNat n := by
    simp only [missing]
    rw [UInt64.sub_eq_add_neg, UInt64.sub_eq_add_neg, UInt64.sub_eq_add_neg, UInt64.neg_add,
      UInt64.sub_eq_add_neg, UInt64.add_assoc]
  rw [hsub, UInt64.toNat_sub_of_le _ _ (by rw [UInt64.le_iff_toNat_le, hn]; omega), hn]

theorem parseContentLength_resumes (cl : UInt64) (s : BodyStep × Message H) (xs z : Bytes)
    (h : (parseContentLength cl s xs).result = .Again) :
    parseContentLength cl (parseContentLength cl s xs).state
      ((parseContentLength cl s xs).rest ++ z) = parseContentLength cl s (xs ++ z) := by
  obtain ⟨step, m⟩ := s
  rw [parseContentLength_eq cl step m xs] at h ⊢
  by_cases hlt : xs.length < (missing cl step).toNat
  · rw [if_pos hlt]
    dsimp only
    rw [List.nil_append, parseContentLength_eq, parseContentLength_eq, missing_add hlt,
      List.length_append]
    by_cases hz : z.length < (missing cl step).toNat - xs.length
    · rw [if_pos hz, if_pos (by omega), UInt64.ofNat_add, UInt64.add_assoc, Message.append_append]
    · have htake : (xs ++ z).take (missing cl step).toNat =
          xs ++ z.take ((missing cl step).toNat - xs.length) := by
        rw [List.take_append, List.take_of_length_le (Nat.le_of_lt hlt)]
      have hdrop : (xs ++ z).drop (missing cl step).toNat =
          z.drop ((missing cl step).toNat - xs.length) := by
        rw [List.drop_append, List.drop_of_length_le (Nat.le_of_lt hlt), List.nil_append]
      rw [if_neg hz, if_neg (by omega), Message.append_append, htake, hdrop]
  · rw [if_neg hlt] at h
    cases h

theorem parseTransferEncoding_settles (te : Header.Encoding) :
    Settles State.Again NotCut (parseTransferEncoding (H := H) te) := by
  intro s xs hs h z
  unfold parseTransferEncoding at h ⊢
  by_cases hte : te = .Chunked
  · simp only [if_pos hte] at h ⊢
    exact lift_settles chunkOf setChunk (chunkBody_resuming.settles chunkBody_shrinks) s xs hs h z
  · simp only [if_neg hte, Out.more_mk]

theorem parseTransferEncoding_resumes (te : Header.Encoding) :
    Resumes State.Again NotCut (parseTransferEncoding (H := H) te) := by
  intro s xs hs h hok z
  unfold parseTransferEncoding at h hok ⊢
  by_cases hte : te = .Chunked
  · simp only [if_pos hte] at h hok ⊢
    exact lift_resumes chunkOf setChunk (chunkBody_resuming.resumes chunkBody_shrinks) (fun _ _ => rfl) (fun _ _ _ => rfl)
      s xs hs h hok z
  · simp only [if_neg hte] at h
    cases h

/-! ## The whole step -/

theorem parseContentLength_appends (cl : UInt64) (s : BodyStep × Message H) (xs : Bytes) :
    ∃ data, (parseContentLength cl s xs).state.2 = s.2.append data := by
  obtain ⟨step, m⟩ := s
  rw [parseContentLength_eq]
  split
  · exact ⟨_, rfl⟩
  · exact ⟨_, rfl⟩

theorem parseChunks_appends (s : Chunk × Message H) (xs : Bytes) :
    ∃ data, (parseChunks s xs).state.2 = s.2.append data := by
  have hnil : ∀ m : Message H, m = m.append [] := fun m => (Message.append_nil m).symm
  have hdata : ∀ (c : PartialChunk) (m : Message H) (ys : Bytes),
      ∃ data, (Chunk.parseData c m ys).state.2 = m.append data := by
    intro c m ys
    rcases Chunk.parseData_cases c m ys with ⟨_, he⟩ | ⟨-, -, he⟩ | ⟨-, -, he⟩
    · rw [he]
      exact ⟨_, rfl⟩
    · rw [he]
      exact ⟨_, rfl⟩
    · rw [he]
      exact ⟨[], hnil m⟩
  have hparse : ∀ (chunk : Chunk) (m : Message H) (ys : Bytes),
      ∃ data, (chunk.parse m ys).state.2 = m.append data := by
    intro chunk m ys
    unfold Chunk.parse
    repeat' split
    all_goals first | exact hdata _ _ _ | exact ⟨[], hnil m⟩
  have hof : ∀ (o : Out Chunk.Result (Chunk × Message H) UInt8),
      (∀ o', ofChunk o = .inl o' → o'.state.2 = o.state.2) ∧
      (∀ s' xs', ofChunk o = .inr (s', xs') → s'.2 = o.state.2) := by
    intro o
    unfold ofChunk
    constructor
    · intro o' h
      repeat' split at h
      all_goals first | cases h; rfl | cases h
    · intro s' xs' h
      repeat' split at h
      all_goals first | cases h; rfl | cases h
  refine Loop.run_induction chunkBody_shrinks (fun s cursor => ⟨.Again, s, cursor⟩)
    (fun s' _ => ∃ data, s'.2 = s.2.append data) (fun o => ∃ data, o.state.2 = s.2.append data)
    ?_ ?_ s xs ⟨[], hnil s.2⟩
  · rintro s' ys o ⟨data, hs'⟩ h
    obtain ⟨more, hmore⟩ := hparse s'.1 s'.2 ys
    exact ⟨data ++ more, by rw [(hof _).1 o h, hmore, hs', Message.append_append]⟩
  · rintro s' ys s'' ys' ⟨data, hs'⟩ h
    obtain ⟨more, hmore⟩ := hparse s'.1 s'.2 ys
    exact ⟨data ++ more, by rw [(hof _).2 s'' ys' h, hmore, hs', Message.append_append]⟩

/-- **All that the body step does to the message** is to append to its body. -/
theorem apply_appends (s : BodyStep × Message H) (xs : Bytes) :
    ∃ data, (apply s xs).state.2 = s.2.append data := by
  unfold apply
  split
  · exact ⟨[], (Message.append_nil _).symm⟩
  · exact parseContentLength_appends _ _ _
  · unfold parseTransferEncoding
    split
    · exact parseChunks_appends (chunkOf s) xs
    · exact ⟨[], (Message.append_nil _).symm⟩
  · exact ⟨[], (Message.append_nil _).symm⟩

theorem apply_headers (s : BodyStep × Message H) (xs : Bytes) :
    (apply s xs).state.2.headers_ = s.2.headers_ := by
  obtain ⟨data, h⟩ := apply_appends s xs
  rw [h, Message.append_headers]

theorem apply_cookies (s : BodyStep × Message H) (xs : Bytes) :
    (apply s xs).state.2.cookies_ = s.2.cookies_ := by
  obtain ⟨data, h⟩ := apply_appends s xs
  rw [h]
  rfl

theorem parseChunks_forward : Forward (parseChunks (H := H)) := by
  refine run_forward chunkBody_shrinks ?_ ?_
  · intro s xs o h
    have hp := Chunk.parse_forward s.1 s.2 xs
    unfold chunkBody ofChunk at h
    repeat' split at h
    all_goals first | cases h; exact hp | cases h
  · intro s xs s' xs' h
    have hp := Chunk.parse_forward s.1 s.2 xs
    unfold chunkBody ofChunk at h
    repeat' split at h
    all_goals first | cases h; exact hp | cases h

theorem forward : Forward (apply (H := H)) := by
  intro s xs
  unfold apply
  split
  · exact List.suffix_refl _
  · obtain ⟨step, m⟩ := s
    rw [parseContentLength_eq]
    split
    · exact List.nil_suffix
    · exact List.drop_suffix _ _
  · unfold parseTransferEncoding
    split
    · exact parseChunks_forward (chunkOf s) xs
    · exact List.suffix_refl _
  · exact List.suffix_refl _

/-- The body step in the two parts that do not look at the headers again. -/
theorem apply_of_headers {s s' : BodyStep × Message H} (h : s'.2.headers_ = s.2.headers_)
    (xs : Bytes) :
    apply s' xs =
      match s.2.headers_.contentLength, s.2.headers_.transferEncoding with
      | some _, some _ =>
        ⟨.thrown (raise
          "Got mutually exclusive ContentLength and TransferEncoding header" .Bad_Request), s', xs⟩
      | some cl, none => parseContentLength cl s' xs
      | none, some te => parseTransferEncoding te s' xs
      | none, none => ⟨.Done, s', xs⟩ := by
  unfold apply
  rw [h]

theorem settles : Settles State.Again NotCut (apply (H := H)) := by
  intro s xs hs h z
  unfold apply at h ⊢
  split at h
  · rfl
  · exact parseContentLength_settles _ s xs z h
  · exact parseTransferEncoding_settles _ s xs hs h z
  · rfl

/-- **A body in pieces.** -/
theorem resumes : Resumes State.Again NotCut (apply (H := H)) := by
  intro s xs hs h hok z
  rw [apply_of_headers (apply_headers s xs)]
  unfold apply at h hok ⊢
  cases hcl : s.2.headers_.contentLength with
  | some cl =>
    cases hte : s.2.headers_.transferEncoding with
    | some te => simp [hcl, hte] at h
    | none =>
      simp only [hcl, hte] at h ⊢
      exact parseContentLength_resumes cl s xs z h
  | none =>
    cases hte : s.2.headers_.transferEncoding with
    | some te =>
      simp only [hcl, hte] at h hok ⊢
      exact parseTransferEncoding_resumes te s xs hs h hok z
    | none => simp [hcl, hte] at h

end BodyStep

end Pistache.Http
