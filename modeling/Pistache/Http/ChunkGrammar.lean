import Pistache.Http.Chunked
import Pistache.Http.HeadLines

/-!
# The decoder of chunks against the grammar

A chunked body without extensions and trailers is a list of chunks (a size in hexadecimal
digits, CRLF, as many bytes, CRLF), a size of zero, CRLF, CRLF.  The decoder reads *rough*
chunks: in a size line it takes whatever stands behind a CR, behind the data it passes over two
bytes, and it is done with the last size line.

* `IsBody`, `HasBody`, `IsPart` — the grammar, and what a text has to do with it.
* `RoughChunk` — what the decoder takes for a chunk.
* `exists_shape` — every text is rough chunks and one of four tails.
* `correct_iff` — the texts on which the decoder does what the grammar says.
-/

set_option autoImplicit false

namespace Pistache.Http.ChunkGrammar

open Resumable Chunked

variable {H : Type}

/-! ## The grammar -/

/-- `1*HEXDIG`, a number that fits into a `size_t`. -/
def IsSize (text : Bytes) (n : Nat) : Prop :=
  text ≠ [] ∧ digitsValue 16 0 text = some n ∧ n < 2 ^ 64

/-- A chunked body without extensions and trailers. -/
inductive IsBody : Bytes → Prop
  | last {line : Bytes} : IsSize line 0 → IsBody (line ++ crlf ++ crlf)
  | chunk {line data rest : Bytes} : IsSize line data.length → data ≠ [] → IsBody rest →
    IsBody (line ++ crlf ++ (data ++ (crlf ++ rest)))

/-- A body stands at the front of the text. -/
def HasBody (w : Bytes) : Prop := ∃ b, IsBody b ∧ b <+: w

/-- The text is a body of which something is missing. -/
def IsPart (w : Bytes) : Prop := ∃ b, IsBody b ∧ w <+: b ∧ w ≠ b

theorem IsSize.oneLine {line : Bytes} {n : Nat} (h : IsSize line n) : OneLine line := by
  refine oneLine_of_not_mem fun hcr => ?_
  have hdigit := digitsValue_isSome_takeWhile h.2.1 CR hcr
  rw [CR_not_digit] at hdigit
  cases hdigit

theorem IsSize.unique {line : Bytes} {n n' : Nat} (h : IsSize line n) (h' : IsSize line n') :
    n = n' := by
  have := h.2.1.symm.trans h'.2.1
  exact Option.some.inj this

/-- The line in front of the first CRLF of a text is that of any body that agrees with it. -/
theorem line_eq {line line' r r' : Bytes} (hline : OneLine line) (hline' : OneLine line')
    (h : line ++ crlf ++ r <+: line' ++ crlf ++ r') : line = line' ∧ r <+: r' := by
  obtain ⟨z, hz⟩ := h
  have hu := hline.untilEol (r ++ z)
  have hu' := hline'.untilEol r'
  have htext : line ++ CR :: LF :: (r ++ z) = line' ++ CR :: LF :: r' := by
    simpa [crlf] using hz
  rw [htext, hu', Option.some.injEq, Prod.mk.injEq] at hu
  obtain ⟨hl, hr⟩ := hu
  refine ⟨hl.symm, z, ?_⟩
  simpa using hr.symm

/-- What the grammar makes of a text behind its first line. -/
theorem hasBody_line {line r : Bytes} (hline : OneLine line) :
    HasBody (line ++ crlf ++ r) ↔
      IsSize line 0 ∧ crlf <+: r ∨
      ∃ data b, IsSize line data.length ∧ data ≠ [] ∧ IsBody b ∧ data ++ (crlf ++ b) <+: r := by
  constructor
  · rintro ⟨b, hb, hpre⟩
    cases hb with
    | last hsize =>
      obtain ⟨rfl, hr⟩ := line_eq hsize.oneLine hline hpre
      exact .inl ⟨hsize, hr⟩
    | chunk hsize hne hrest =>
      obtain ⟨rfl, hr⟩ := line_eq hsize.oneLine hline hpre
      exact .inr ⟨_, _, hsize, hne, hrest, hr⟩
  · rintro (⟨hsize, hr⟩ | ⟨data, b, hsize, hne, hb, hr⟩)
    · exact ⟨_, .last hsize, (List.prefix_append_right_inj _).mpr hr⟩
    · exact ⟨_, .chunk hsize hne hb, (List.prefix_append_right_inj _).mpr hr⟩

theorem isPart_line {line r : Bytes} (hline : OneLine line) :
    IsPart (line ++ crlf ++ r) ↔
      IsSize line 0 ∧ r <+: crlf ∧ r ≠ crlf ∨
      ∃ data b, IsSize line data.length ∧ data ≠ [] ∧ IsBody b ∧
        r <+: data ++ (crlf ++ b) ∧ r ≠ data ++ (crlf ++ b) := by
  constructor
  · rintro ⟨b, hb, hpre, hproper⟩
    cases hb with
    | last hsize =>
      obtain ⟨rfl, hr⟩ := line_eq hline hsize.oneLine hpre
      exact .inl ⟨hsize, hr, fun e => hproper (by rw [e])⟩
    | chunk hsize hne hrest =>
      obtain ⟨rfl, hr⟩ := line_eq hline hsize.oneLine hpre
      exact .inr ⟨_, _, hsize, hne, hrest, hr, fun e => hproper (by rw [e])⟩
  · rintro (⟨hsize, hr, hproper⟩ | ⟨data, b, hsize, hne, hb, hr, hproper⟩)
    · exact ⟨_, .last hsize, (List.prefix_append_right_inj _).mpr hr,
        fun e => hproper (List.append_cancel_left e)⟩
    · exact ⟨_, .chunk hsize hne hb, (List.prefix_append_right_inj _).mpr hr,
        fun e => hproper (List.append_cancel_left e)⟩

/-! ### Behind a chunk -/

section Chunk

variable {line data behind w : Bytes}

/-- Two texts that agree have the same data and the same two bytes behind it. -/
theorem data_eq {data' w' : Bytes} (hlen : data.length = data'.length) (htwo : behind.length = 2)
    (h : data ++ (behind ++ w) <+: data' ++ (crlf ++ w')) :
    data = data' ∧ behind = crlf ∧ w <+: w' := by
  obtain ⟨z, hz⟩ := h
  simp only [List.append_assoc] at hz
  obtain ⟨hd, hrest⟩ := List.append_inj hz hlen
  obtain ⟨hb, hw⟩ := List.append_inj hrest htwo
  exact ⟨hd, hb, z, hw⟩

theorem data_eq' {data' w' : Bytes} (hlen : data.length = data'.length) (htwo : behind.length = 2)
    (h : data' ++ (crlf ++ w') <+: data ++ (behind ++ w)) :
    data = data' ∧ behind = crlf ∧ w' <+: w := by
  obtain ⟨z, hz⟩ := h
  simp only [List.append_assoc] at hz
  obtain ⟨hd, hrest⟩ := List.append_inj hz.symm hlen
  obtain ⟨hb, hw⟩ := List.append_inj hrest htwo
  exact ⟨hd, hb, z, hw.symm⟩

variable (hline : OneLine line) (hsize : ∀ n, IsSize line n → n = data.length) (hne : data ≠ [])
  (htwo : behind.length = 2)
include hline hsize hne htwo

/-- **The grammar behind a chunk.** -/
theorem hasBody_chunk :
    HasBody (line ++ crlf ++ (data ++ (behind ++ w))) ↔
      IsSize line data.length ∧ behind = crlf ∧ HasBody w := by
  rw [hasBody_line hline]
  constructor
  · rintro (⟨hzero, -⟩ | ⟨data', b, hsize', -, hb, hpre⟩)
    · exact absurd (List.length_eq_zero_iff.mp (hsize 0 hzero).symm) hne
    · obtain ⟨rfl, hbehind, hw⟩ := data_eq' (hsize _ hsize').symm htwo hpre
      exact ⟨hsize', hbehind, b, hb, hw⟩
  · rintro ⟨hexact, rfl, b, hb, hw⟩
    exact .inr ⟨data, b, hexact, hne, hb, by
      rw [List.prefix_append_right_inj, List.prefix_append_right_inj]
      exact hw⟩

theorem isPart_chunk :
    IsPart (line ++ crlf ++ (data ++ (behind ++ w))) ↔
      IsSize line data.length ∧ behind = crlf ∧ IsPart w := by
  rw [isPart_line hline]
  constructor
  · rintro (⟨hzero, -⟩ | ⟨data', b, hsize', -, hb, hpre, hproper⟩)
    · exact absurd (List.length_eq_zero_iff.mp (hsize 0 hzero).symm) hne
    · obtain ⟨rfl, rfl, hw⟩ := data_eq (hsize _ hsize').symm htwo hpre
      exact ⟨hsize', rfl, b, hb, hw, fun e => hproper (by rw [e])⟩
  · rintro ⟨hexact, rfl, b, hb, hw, hproper⟩
    refine .inr ⟨data, b, hexact, hne, hb, ?_, fun e => hproper ?_⟩
    · rw [List.prefix_append_right_inj, List.prefix_append_right_inj]
      exact hw
    · exact List.append_cancel_left (List.append_cancel_left e)

end Chunk

/-- A body is not part of a longer one. -/
theorem IsBody.not_isPart {b : Bytes} (h : IsBody b) : ¬IsPart b := by
  induction h with
  | last hsize =>
    rw [isPart_line hsize.oneLine]
    rintro (⟨-, -, hproper⟩ | ⟨data, b, hsize', hne, -⟩)
    · exact hproper rfl
    · exact hne (List.length_eq_zero_iff.mp (hsize'.unique hsize))
  | chunk hsize hne _ ih =>
    rw [isPart_chunk hsize.oneLine (fun n hn => hn.unique hsize) hne rfl]
    exact fun hpart => ih hpart.2.2

/-- **The grammar is unambiguous**: a text that begins with a body is not part of one. -/
theorem HasBody.not_isPart {w : Bytes} (h : HasBody w) : ¬IsPart w := by
  obtain ⟨b, hb, hw⟩ := h
  rintro ⟨b', hb', hw', hproper⟩
  refine hb.not_isPart ⟨b', hb', hw.trans hw', ?_⟩
  rintro rfl
  exact hproper (hw'.eq_of_length (Nat.le_antisymm hw'.length_le hw.length_le))

/-! ## Rough chunks -/

/-- The size that the decoder finds in a size line; what stands behind a CR does not count. -/
def roughSize (line : Bytes) : Option Nat :=
  match from_chars 16 line with
  | .ok (n, ptr) => if ptr = [] ∨ ptr.head? = some CR then some n else none
  | .error _ => none

theorem IsSize.rough {line : Bytes} {n : Nat} (h : IsSize line n) : roughSize line = some n := by
  rw [roughSize, from_chars_digits h.1 h.2.1 h.2.2]
  rfl

theorem IsSize.of_rough {line : Bytes} {n n' : Nat} (hrough : roughSize line = some n)
    (h : IsSize line n') : n' = n := by
  rw [h.rough] at hrough
  exact Option.some.inj hrough

/-- A size line with its CRLF. -/
theorem sizeLine_rough {line : Bytes} (hline : OneLine line) (rest : Bytes) :
    Chunk.sizeLine (line ++ crlf ++ rest) =
      match roughSize line with
      | some n => some (.ok n, rest)
      | none => some (.error (.std "Invalid chunk size"), rest) := by
  have hu := hline.untilEol rest
  have htext : line ++ crlf ++ rest = line ++ CR :: LF :: rest := by simp [crlf]
  rw [htext, Chunk.sizeLine, hu, roughSize]
  dsimp only
  cases hf : from_chars 16 line with
  | error e => rfl
  | ok p =>
    obtain ⟨n, ptr⟩ := p
    dsimp only
    have hcurrent : current (ptr ++ CR :: LF :: rest) = CR ↔ ptr = [] ∨ ptr.head? = some CR := by
      cases ptr with
      | nil => simp
      | cons c ptr => simp
    by_cases hcr : ptr = [] ∨ ptr.head? = some CR
    · rw [if_pos (hcurrent.mpr hcr), if_pos hcr]
      rfl
    · rw [if_neg fun h => hcr (hcurrent.mp h), if_neg hcr]
      rfl

/-- What the decoder takes for a chunk. -/
structure RoughChunk where
  line : Bytes
  data : Bytes
  behind : Bytes
  oneLine : OneLine line
  size : roughSize line = some data.length
  data_ne : data ≠ []
  data_le : data.length ≤ stringMaxSize
  two : behind.length = 2

namespace RoughChunk

def bytes (c : RoughChunk) : Bytes := c.line ++ crlf ++ (c.data ++ c.behind)

/-- The chunk is one of the grammar. -/
def Exact (c : RoughChunk) : Prop := IsSize c.line c.data.length ∧ c.behind = crlf

/-- Chunks one behind the other. -/
def text (cs : List RoughChunk) : Bytes := (cs.map bytes).flatten

@[simp] theorem text_nil : text [] = [] := rfl
@[simp] theorem text_cons (c : RoughChunk) (cs : List RoughChunk) :
    text (c :: cs) = c.bytes ++ text cs := rfl

theorem bytes_append (c : RoughChunk) (w : Bytes) :
    c.bytes ++ w = c.line ++ crlf ++ (c.data ++ (c.behind ++ w)) := by
  simp [bytes]

theorem hasBody_text (w : Bytes) : ∀ cs : List RoughChunk,
    HasBody (text cs ++ w) ↔ (∀ c ∈ cs, c.Exact) ∧ HasBody w
  | [] => by simp
  | c :: cs => by
    rw [text_cons, List.append_assoc, bytes_append,
      hasBody_chunk c.oneLine (fun n hn => IsSize.of_rough c.size hn) c.data_ne c.two,
      hasBody_text w cs, List.forall_mem_cons, Exact, and_assoc, and_assoc]

theorem isPart_text (w : Bytes) : ∀ cs : List RoughChunk,
    IsPart (text cs ++ w) ↔ (∀ c ∈ cs, c.Exact) ∧ IsPart w
  | [] => by simp
  | c :: cs => by
    rw [text_cons, List.append_assoc, bytes_append,
      isPart_chunk c.oneLine (fun n hn => IsSize.of_rough c.size hn) c.data_ne c.two,
      isPart_text w cs, List.forall_mem_cons, Exact, and_assoc, and_assoc]

end RoughChunk

/-! ## The decoder -/

open RoughChunk

/-- `parseTransferEncoding` of a new body step on all of the text. -/
def decode (m : Message H) (w : Bytes) : Out State (BodyStep × Message H) UInt8 :=
  BodyStep.parseTransferEncoding .Chunked ({}, m) w

theorem decode_result (m : Message H) (w : Bytes) :
    (decode m w).result = (BodyStep.parseChunks (none, m) w).result := by
  rw [decode, BodyStep.parseTransferEncoding, if_pos rfl]
  rfl

/-- The start of a chunk whose size line has been read. -/
def start (n : Nat) (hpos : 0 < n) (hle : n ≤ stringMaxSize) : PartialChunk :=
  ⟨n, 0, hpos, hle, Nat.zero_le _⟩

section Decoder

variable {line : Bytes} {n : Nat}

theorem parse_start (hline : OneLine line) (hsize : roughSize line = some n) (hpos : 0 < n)
    (hle : n ≤ stringMaxSize) (m : Message H) (d : Bytes) :
    Chunk.parse none m (line ++ crlf ++ d) = Chunk.parseData (start n hpos hle) m d := by
  simp only [Chunk.parse, sizeLine_rough hline, hsize, dif_pos hpos, dif_pos hle]
  rfl

/-- The loop goes on behind a rough chunk. -/
theorem parseChunks_rough (c : RoughChunk) (m : Message H) (t : Bytes) :
    BodyStep.parseChunks (none, m) (c.bytes ++ t) =
      BodyStep.parseChunks (none, m.append c.data) t := by
  have hpos : 0 < c.data.length := List.length_pos_iff.mpr c.data_ne
  have hparse : Chunk.parse none m (c.bytes ++ t) =
      ⟨.Complete, (some (start c.data.length hpos c.data_le), m.append c.data), t⟩ := by
    rw [bytes_append, parse_start c.oneLine c.size hpos c.data_le]
    have hlen : ¬(c.data ++ (c.behind ++ t)).length + 0 < c.data.length + 2 := by
      simp only [List.length_append, c.two]
      omega
    have hdrop : (c.data ++ (c.behind ++ t)).drop (c.data.length + 2) = t := by
      rw [← List.append_assoc, List.drop_left' (by rw [List.length_append, c.two])]
    refine (dif_neg hlen).trans ((if_pos (Nat.zero_le _)).trans ?_)
    simp only [start, Nat.sub_zero, List.take_left, hdrop]
  unfold BodyStep.parseChunks
  rw [Loop.run_eq BodyStep.chunkBody_shrinks]
  by_cases ht : t = []
  · subst ht
    rw [Loop.run_eq BodyStep.chunkBody_shrinks _ (none, m.append c.data), BodyStep.chunkBody_nil]
    simp only [List.append_nil] at hparse
    simp [BodyStep.chunkBody, BodyStep.ofChunk, hparse]
  · simp [BodyStep.chunkBody, BodyStep.ofChunk, hparse, ht]

theorem decode_text (w : Bytes) : ∀ (cs : List RoughChunk) (m : Message H),
    ∃ m' : Message H, (decode m (text cs ++ w)).result = (decode m' w).result
  | [], m => ⟨m, rfl⟩
  | c :: cs, m => by
    obtain ⟨m', h⟩ := decode_text w cs (m.append c.data)
    refine ⟨m', ?_⟩
    rw [← h, decode_result, decode_result, text_cons, List.append_assoc, parseChunks_rough]

/-- What the loop returns when `Chunk::parse` has not come to the end of a chunk. -/
def stopped : Chunk.Result → State
  | .Final => .Done
  | .thrown e => .thrown (raise e.what .Bad_Request)
  | _ => .Again

/-- The first call of `Chunk::parse` decides, unless it comes to the end of a chunk. -/
theorem decode_stop {m : Message H} {w : Bytes} {r : Chunk.Result}
    (h : (Chunk.parse none m w).result = r) (hr : r ≠ .Complete) :
    (decode m w).result = stopped r := by
  rw [decode_result, BodyStep.parseChunks, Loop.run_eq BodyStep.chunkBody_shrinks]
  simp only [BodyStep.chunkBody, BodyStep.ofChunk, h]
  cases r with
  | Complete => exact absurd rfl hr
  | Incomplete => rfl
  | Final => rfl
  | thrown e => rfl

/-- The size line of the last chunk. -/
theorem decode_last (hline : OneLine line) (hsize : roughSize line = some 0) (m : Message H)
    (rest : Bytes) : (decode m (line ++ crlf ++ rest)).result = .Done := by
  have hparse : (Chunk.parse none m (line ++ crlf ++ rest)).result = .Final := by
    simp only [Chunk.parse, sizeLine_rough hline, hsize]
    rfl
  exact decode_stop hparse (by simp)

/-- A size line that is no size, or one that no string can have. -/
def Refused (line : Bytes) : Prop := ∀ n, roughSize line = some n → stringMaxSize < n

theorem decode_refused (hline : OneLine line) (hrefused : Refused line) (m : Message H)
    (rest : Bytes) :
    ∃ code reason, (decode m (line ++ crlf ++ rest)).result = .thrown (.http code reason) := by
  have hparse : ∃ e, (Chunk.parse none m (line ++ crlf ++ rest)).result = .thrown e := by
    cases hsize : roughSize line with
    | none => exact ⟨.std "Invalid chunk size", by simp only [Chunk.parse, sizeLine_rough hline, hsize]⟩
    | some n =>
      have hlarge := hrefused n hsize
      have hpos : 0 < n := by omega
      have hnot : ¬n ≤ stringMaxSize := by omega
      exact ⟨.std "basic_string::_M_create", by
        simp only [Chunk.parse, sizeLine_rough hline, hsize, dif_pos hpos, dif_neg hnot]⟩
  obtain ⟨e, hparse⟩ := hparse
  exact ⟨.Bad_Request, e.what, decode_stop hparse (by simp)⟩

/-- A size line that has not come to its end. -/
theorem decode_inLine {t : Bytes} (ht : untilEol t = none) (m : Message H) :
    (decode m t).result = .Again := by
  have hparse : (Chunk.parse none m t).result = .Incomplete := by
    simp only [Chunk.parse, Chunk.sizeLine, ht]
  exact decode_stop hparse (by simp)

/-- A chunk that has not come to its end. -/
theorem decode_inData (hline : OneLine line) (hsize : roughSize line = some n) (hpos : 0 < n)
    (hle : n ≤ stringMaxSize) {d : Bytes} (hd : d.length < n + 2) (m : Message H) :
    (decode m (line ++ crlf ++ d)).result = .Again := by
  have hparse : (Chunk.parse none m (line ++ crlf ++ d)).result = .Incomplete := by
    rw [parse_start hline hsize hpos hle]
    exact congrArg Out.result (dif_pos (show d.length + 0 < n + 2 by omega))
  exact decode_stop hparse (by simp)

end Decoder

/-- **Every text** is rough chunks and a tail: a last size line, a size line that is refused, one
that has not come to its end, or a chunk that has not. -/
inductive Shape : Bytes → Prop
  | last (cs : List RoughChunk) {line : Bytes} (rest : Bytes) : OneLine line →
    roughSize line = some 0 → Shape (text cs ++ (line ++ crlf ++ rest))
  | refused (cs : List RoughChunk) {line : Bytes} (rest : Bytes) : OneLine line →
    Refused line → Shape (text cs ++ (line ++ crlf ++ rest))
  | inLine (cs : List RoughChunk) {t : Bytes} : untilEol t = none → Shape (text cs ++ t)
  | inData (cs : List RoughChunk) {line d : Bytes} {n : Nat} : OneLine line →
    roughSize line = some n → 0 < n → n ≤ stringMaxSize → d.length < n + 2 →
    Shape (text cs ++ (line ++ crlf ++ d))

theorem Shape.chunk (c : RoughChunk) {w : Bytes} (h : Shape w) : Shape (c.bytes ++ w) := by
  have hcons : ∀ (cs : List RoughChunk) (t : Bytes), c.bytes ++ (text cs ++ t) =
      text (c :: cs) ++ t := fun cs t => by
    rw [text_cons, List.append_assoc]
  cases h with
  | last cs rest hline hsize => rw [hcons]; exact .last _ rest hline hsize
  | refused cs rest hline hrefused => rw [hcons]; exact .refused _ rest hline hrefused
  | inLine cs ht => rw [hcons]; exact .inLine _ ht
  | inData cs hline hsize hpos hle hd => rw [hcons]; exact .inData _ hline hsize hpos hle hd

theorem exists_shape : ∀ (k : Nat) (w : Bytes), w.length < k → Shape w
  | 0, _, h => absurd h (Nat.not_lt_zero _)
  | k + 1, w, hk => by
    cases hu : untilEol w with
    | none => exact .inLine [] hu
    | some p =>
      obtain ⟨line, cursor⟩ := p
      have hline := untilEol_oneLine hu
      obtain ⟨hw, rest, rfl⟩ := untilEol_some hu
      have htext : w = text [] ++ (line ++ crlf ++ rest) := by
        rw [hw]
        simp [crlf]
      by_cases hrefused : Refused line
      · rw [htext]
        exact .refused [] rest hline hrefused
      · simp only [Refused, not_forall, Nat.not_lt] at hrefused
        obtain ⟨n, hsize, hle⟩ := hrefused
        rcases Nat.eq_zero_or_pos n with rfl | hpos
        · rw [htext]
          exact .last [] rest hline hsize
        · by_cases hlen : rest.length < n + 2
          · rw [htext]
            exact .inData [] hline hsize hpos hle hlen
          · -- a whole chunk
            have hlen' : (rest.take n).length = n := by
              rw [List.length_take]
              omega
            let c : RoughChunk :=
              { line, data := rest.take n, behind := (rest.drop n).take 2, oneLine := hline
                size := by rw [hlen']; exact hsize
                data_ne := fun e => by rw [e, List.length_nil] at hlen'; omega
                data_le := by rw [hlen']; exact hle
                two := by rw [List.length_take, List.length_drop]; omega }
            have hsplit : w = c.bytes ++ (rest.drop n).drop 2 := by
              rw [htext, bytes_append]
              simp only [c, List.take_append_drop, text_nil, List.nil_append]
            rw [hsplit]
            refine (exists_shape k _ ?_).chunk c
            rw [hw, List.length_append, List.length_cons, List.length_cons] at hk
            rw [List.length_drop, List.length_drop]
            omega

/-! ## Correct texts -/

/-- The decoder does on the text what the grammar says: it is done when a body stands at the
front of it, asks for more when it is part of a body, and throws an `HttpError` otherwise. -/
structure Correct (m : Message H) (w : Bytes) : Prop where
  done : (decode m w).result = .Done ↔ HasBody w
  again : (decode m w).result = .Again ↔ IsPart w
  thrown : (∃ code reason, (decode m w).result = .thrown (.http code reason)) ↔
    ¬HasBody w ∧ ¬IsPart w

section Correct

variable {m : Message H} {w : Bytes}

theorem correct_done (h : (decode m w).result = .Done) : Correct m w ↔ HasBody w := by
  refine ⟨fun hc => hc.done.mp h, fun hb => ⟨⟨fun _ => hb, fun _ => h⟩, ?_, ?_⟩⟩
  · rw [h]
    exact ⟨fun e => by (cases e), fun hp => absurd hp hb.not_isPart⟩
  · rw [h]
    exact ⟨fun ⟨_, _, e⟩ => by (cases e), fun hn => absurd hb hn.1⟩

theorem correct_again (h : (decode m w).result = .Again) : Correct m w ↔ IsPart w := by
  refine ⟨fun hc => hc.again.mp h, fun hp => ⟨?_, ⟨fun _ => hp, fun _ => h⟩, ?_⟩⟩
  · rw [h]
    exact ⟨fun e => by (cases e), fun hb => absurd hp hb.not_isPart⟩
  · rw [h]
    exact ⟨fun ⟨_, _, e⟩ => by (cases e), fun hn => absurd hp hn.2⟩

theorem correct_thrown (h : ∃ code reason, (decode m w).result = .thrown (.http code reason)) :
    Correct m w ↔ ¬HasBody w ∧ ¬IsPart w := by
  refine ⟨fun hc => hc.thrown.mp h, fun hn => ⟨?_, ?_, ⟨fun _ => hn, fun _ => h⟩⟩⟩
  · obtain ⟨code, reason, h⟩ := h
    rw [h]
    exact ⟨fun e => by (cases e), fun hb => absurd hb hn.1⟩
  · obtain ⟨code, reason, h⟩ := h
    rw [h]
    exact ⟨fun e => by (cases e), fun hp => absurd hp hn.2⟩

variable {cs : List RoughChunk} {line : Bytes} {n : Nat}

/-- At the end of the rough chunks the decoder is right when the chunks are exact and the
CRLF behind the last size line is there. -/
theorem correct_last (hline : OneLine line) (hsize : roughSize line = some 0) (rest : Bytes) :
    Correct m (text cs ++ (line ++ crlf ++ rest)) ↔
      (∀ c ∈ cs, c.Exact) ∧ IsSize line 0 ∧ crlf <+: rest := by
  obtain ⟨m', hm'⟩ := decode_text (line ++ crlf ++ rest) cs m
  rw [correct_done (hm'.trans (decode_last hline hsize m' rest)), hasBody_text, hasBody_line hline]
  refine and_congr_right fun _ => ⟨?_, .inl⟩
  rintro (h | ⟨data, b, hsize', hne, -⟩)
  · exact h
  · exact absurd (List.length_eq_zero_iff.mp (IsSize.of_rough hsize hsize')) hne

/-- The line is a size, and behind it the text goes on as the grammar says. -/
def Continues (line rest : Bytes) : Prop :=
  ∃ data b, IsSize line data.length ∧ IsBody b ∧
    (rest <+: data ++ (crlf ++ b) ∨ data ++ (crlf ++ b) <+: rest)

theorem correct_refused (hline : OneLine line) (hrefused : Refused line) (rest : Bytes) :
    Correct m (text cs ++ (line ++ crlf ++ rest)) ↔
      ¬((∀ c ∈ cs, c.Exact) ∧ Continues line rest) := by
  obtain ⟨m', hm'⟩ := decode_text (line ++ crlf ++ rest) cs m
  have hzero : ¬IsSize line 0 := fun h => by
    have := hrefused 0 h.rough
    omega
  have hthrown := decode_refused hline hrefused m' rest
  rw [← hm'] at hthrown
  rw [correct_thrown hthrown, hasBody_text, isPart_text, hasBody_line hline, isPart_line hline]
  simp only [hzero, false_and, false_or]
  constructor
  · rintro ⟨hbody, hpart⟩ ⟨hexact, data, b, hsize, hb, hpre⟩
    have hne : data ≠ [] := by
      rintro rfl
      exact hzero hsize
    by_cases he : rest = data ++ (crlf ++ b)
    · exact hbody ⟨hexact, data, b, hsize, hne, hb, he ▸ List.prefix_refl _⟩
    · rcases hpre with hpre | hpre
      · exact hpart ⟨hexact, data, b, hsize, hne, hb, hpre, he⟩
      · exact hbody ⟨hexact, data, b, hsize, hne, hb, hpre⟩
  · intro h
    constructor
    · rintro ⟨hexact, data, b, hsize, -, hb, hpre⟩
      exact h ⟨hexact, data, b, hsize, hb, .inr hpre⟩
    · rintro ⟨hexact, data, b, hsize, -, hb, hpre, -⟩
      exact h ⟨hexact, data, b, hsize, hb, .inl hpre⟩

/-- There is a body behind every size. -/
theorem IsSize.exists_body (h : IsSize line n) :
    ∃ r, IsBody (line ++ crlf ++ r) ∧ ∀ data : Bytes, data.length = n → n ≠ 0 →
      ∃ b, IsBody b ∧ IsBody (line ++ crlf ++ (data ++ (crlf ++ b))) := by
  have hzero : IsSize (lit "0") 0 := ⟨by decide, by decide, by decide⟩
  have hlast := IsBody.last hzero
  have hall : ∀ data : Bytes, data.length = n → n ≠ 0 →
      ∃ b, IsBody b ∧ IsBody (line ++ crlf ++ (data ++ (crlf ++ b))) := by
    rintro data rfl hne
    refine ⟨_, hlast, .chunk h ?_ hlast⟩
    rintro rfl
    exact hne rfl
  by_cases hn : n = 0
  · subst hn
    exact ⟨crlf, .last h, hall⟩
  · obtain ⟨b, -, hb⟩ := hall (List.replicate n 0) List.length_replicate hn
    exact ⟨_, hb, hall⟩

theorem isPart_inLine {t : Bytes} (ht : untilEol t = none) :
    IsPart t ↔ ∃ line n, IsSize line n ∧ t <+: line ++ [CR] := by
  constructor
  · rintro ⟨b, hb, hpre, -⟩
    obtain ⟨line, n, r, hsize, rfl⟩ : ∃ line n r, IsSize line n ∧ b = line ++ crlf ++ r := by
      cases hb with
      | last hsize => exact ⟨_, _, _, hsize, rfl⟩
      | chunk hsize _ _ => exact ⟨_, _, _, hsize, rfl⟩
    refine ⟨line, n, hsize, ?_⟩
    have hsplit : line ++ crlf ++ r = (line ++ [CR]) ++ (LF :: r) := by simp [crlf]
    rw [hsplit] at hpre
    rcases List.prefix_or_prefix_of_prefix hpre (List.prefix_append (line ++ [CR]) (LF :: r)) with h | h
    · exact h
    · obtain ⟨s, rfl⟩ := h
      cases s with
      | nil => simp
      | cons c s =>
        -- the line would have come to its end
        have hc : c :: s <+: LF :: r := (List.prefix_append_right_inj _).mp hpre
        obtain rfl : c = LF := (List.cons_prefix_cons.mp hc).1
        have hu := hsize.oneLine.untilEol s
        rw [List.append_assoc, List.singleton_append, hu] at ht
        cases ht
  · rintro ⟨line, n, hsize, hpre⟩
    obtain ⟨r, hb, -⟩ := hsize.exists_body
    have hsplit : line ++ crlf ++ r = (line ++ [CR]) ++ (LF :: r) := by simp [crlf]
    refine ⟨_, hb, ?_, ?_⟩
    · rw [hsplit]
      exact hpre.trans (List.prefix_append _ _)
    · rintro rfl
      have hlen := hpre.length_le
      rw [hsplit] at hlen
      simp only [List.length_append, List.length_cons] at hlen
      omega

theorem correct_inLine {t : Bytes} (ht : untilEol t = none) :
    Correct m (text cs ++ t) ↔
      (∀ c ∈ cs, c.Exact) ∧ ∃ line n, IsSize line n ∧ t <+: line ++ [CR] := by
  obtain ⟨m', hm'⟩ := decode_text t cs m
  rw [correct_again (hm'.trans (decode_inLine ht m')), isPart_text, isPart_inLine ht]

theorem isPart_inData (hline : OneLine line) (hsize : roughSize line = some n) (hpos : 0 < n)
    {d : Bytes} (hd : d.length < n + 2) :
    IsPart (line ++ crlf ++ d) ↔
      ∃ data, IsSize line data.length ∧ data ≠ [] ∧ d <+: data ++ [CR] := by
  rw [isPart_line hline]
  constructor
  · rintro (⟨hzero, -⟩ | ⟨data, b, hsize', hne, hb, hpre, -⟩)
    · have := IsSize.of_rough hsize hzero
      omega
    · refine ⟨data, hsize', hne, ?_⟩
      have hn := IsSize.of_rough hsize hsize'
      have hsplit : data ++ (crlf ++ b) = (data ++ [CR]) ++ (LF :: b) := by simp [crlf]
      rw [hsplit] at hpre
      refine List.prefix_of_prefix_length_le hpre (List.prefix_append _ _) ?_
      rw [List.length_append, List.length_singleton]
      omega
  · rintro ⟨data, hsize', hne, hpre⟩
    obtain ⟨r, hr, hall⟩ := hsize'.exists_body
    obtain ⟨b, hb, -⟩ := hall data rfl (by rw [ne_eq, List.length_eq_zero_iff]; exact hne)
    have hsplit : data ++ (crlf ++ b) = (data ++ [CR]) ++ (LF :: b) := by simp [crlf]
    refine .inr ⟨data, b, hsize', hne, hb, ?_, ?_⟩
    · rw [hsplit]
      exact hpre.trans (List.prefix_append _ _)
    · rintro rfl
      have hlen := hpre.length_le
      rw [hsplit] at hlen
      simp only [List.length_append, List.length_cons] at hlen
      omega

theorem correct_inData (hline : OneLine line) (hsize : roughSize line = some n) (hpos : 0 < n)
    (hle : n ≤ stringMaxSize) {d : Bytes} (hd : d.length < n + 2) :
    Correct m (text cs ++ (line ++ crlf ++ d)) ↔
      (∀ c ∈ cs, c.Exact) ∧ ∃ data, IsSize line data.length ∧ data ≠ [] ∧ d <+: data ++ [CR] := by
  obtain ⟨m', hm'⟩ := decode_text (line ++ crlf ++ d) cs m
  rw [correct_again (hm'.trans (decode_inData hline hsize hpos hle hd m')), isPart_text,
    isPart_inData hline hsize hpos hd]

end Correct

/-- The texts on which the decoder is right.  Exact chunks are followed by a whole last size
line and the CRLF behind it; or by part of a size line; or by part of a chunk that a string can
hold.  Or rough chunks are followed by a size line that is refused, and this is not because the
size is from `2 ^ 62` on where everything else is as it should be. -/
inductive Kept : Bytes → Prop
  | complete (cs : List RoughChunk) {line : Bytes} (rest : Bytes) : (∀ c ∈ cs, c.Exact) →
    IsSize line 0 → Kept (text cs ++ (line ++ crlf ++ (crlf ++ rest)))
  | inLine (cs : List RoughChunk) {line t : Bytes} {n : Nat} : (∀ c ∈ cs, c.Exact) →
    IsSize line n → t <+: line ++ [CR] → Kept (text cs ++ t)
  | inData (cs : List RoughChunk) {line data d : Bytes} : (∀ c ∈ cs, c.Exact) →
    IsSize line data.length → data ≠ [] → data.length ≤ stringMaxSize → d <+: data ++ [CR] →
    Kept (text cs ++ (line ++ crlf ++ d))
  | refused (cs : List RoughChunk) {line : Bytes} (rest : Bytes) : OneLine line → Refused line →
    ¬((∀ c ∈ cs, c.Exact) ∧ Continues line rest) → Kept (text cs ++ (line ++ crlf ++ rest))

/-- Two bytes that are no CRLF behind the data of the only chunk. -/
def badDelimiter : Bytes := lit "5\r\nhelloXX0\r\n\r\n"

end Pistache.Http.ChunkGrammar
