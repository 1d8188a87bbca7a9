import Pistache.Http.BodyStep

/-!
# Chunked bodies

The text of a chunked body without trailers, the decoder (`ArrayStreamBuf` and `BodyStep`)
that is given such a text in pieces, and what it makes of it.

* `parse_body` — what one call makes of the bytes received so far.
* `Decoder.segmentation` — the outcome over all ways of cutting a body into pieces.
-/

set_option autoImplicit false

namespace Pistache.Http.Chunked

open Resumable

variable {H : Type}

/-! ## The text -/

/-- A chunk: the hexadecimal text of its size, and its data, which fits into a string. -/
structure ChunkText where
  size : Bytes
  data : Bytes
  data_ne : data ≠ []
  data_le : data.length ≤ stringMaxSize
  size_eq : digitsValue 16 0 size = some data.length

def crlf : Bytes := [CR, LF]

/-- The size line. -/
def ChunkText.line (c : ChunkText) : Bytes := c.size ++ crlf

def ChunkText.encode (c : ChunkText) : Bytes := c.line ++ c.data ++ crlf

def chunks (cs : List ChunkText) : Bytes := (cs.map ChunkText.encode).flatten

/-- The size line of the last chunk. -/
def lastLine : Bytes := lit "0" ++ crlf

/-- A chunked body. -/
def body (cs : List ChunkText) : Bytes := chunks cs ++ lastLine ++ crlf

def data (cs : List ChunkText) : Bytes := (cs.map ChunkText.data).flatten

@[simp] theorem chunks_nil : chunks [] = [] := rfl
@[simp] theorem chunks_cons (c : ChunkText) (cs : List ChunkText) :
    chunks (c :: cs) = c.encode ++ chunks cs := rfl
@[simp] theorem data_nil : data [] = [] := rfl
@[simp] theorem data_cons (c : ChunkText) (cs : List ChunkText) :
    data (c :: cs) = c.data ++ data cs := rfl

theorem ChunkText.data_pos (c : ChunkText) : 0 < c.data.length :=
  List.length_pos_iff.mpr c.data_ne

theorem ChunkText.size_ne (c : ChunkText) : c.size ≠ [] := by
  intro h
  have := c.size_eq
  rw [h, digitsValue] at this
  have hpos := c.data_pos
  simp only [Option.some.injEq] at this
  omega

/-! ## The size line -/

theorem eol_digits {text : Bytes} (h : ∀ c ∈ text, isDigitOf 16 c = true) (rest : Bytes)
    {a b : Bytes} {x : UInt8} (he : text = a ++ x :: b) : eol (x :: b ++ rest) = false := by
  have hx := h x (by rw [he]; simp)
  have hne : x ≠ CR := by
    rintro rfl
    rw [CR_not_digit] at hx
    cases hx
  rw [Bool.eq_false_iff]
  intro heol
  obtain ⟨rest', h'⟩ := eol_iff.mp heol
  exact hne (List.cons.inj h').1

theorem untilEol_digits {text : Bytes} {n : Nat} (hv : digitsValue 16 0 text = some n)
    (rest : Bytes) : untilEol (text ++ CR :: LF :: rest) = some (text, CR :: LF :: rest) :=
  Scan.scan_eq_some (eol_crlf rest) (by simp) fun _ _ _ he =>
    eol_digits (digitsValue_isSome_takeWhile hv) _ he

/-- A size line that has arrived. -/
theorem sizeLine_text {text : Bytes} {n : Nat} (hne : text ≠ [])
    (hv : digitsValue 16 0 text = some n) (hn : n < 2 ^ 64) (rest : Bytes) :
    Chunk.sizeLine (text ++ crlf ++ rest) = some (.ok n, rest) := by
  simp only [Chunk.sizeLine, crlf, List.append_assoc, List.cons_append, List.nil_append,
    untilEol_digits hv, from_chars_digits hne hv hn, current_cons, if_true]
  rfl

/-- A size line of which the end is missing. -/
theorem untilEol_incomplete {text : Bytes} {n : Nat} (hv : digitsValue 16 0 text = some n)
    {t : Bytes} (ht : t <+: text ++ [CR]) : untilEol t = none := by
  have hdigits := digitsValue_isSome_takeWhile hv
  refine Scan.scan_eq_none fun a x b he => ?_
  rw [Bool.eq_false_iff]
  intro heol
  obtain ⟨rest, h'⟩ := eol_iff.mp heol
  obtain ⟨z, hz⟩ := ht
  rw [he, h'] at hz
  -- the CR in front of an LF would be a digit
  have hlen := congrArg List.length hz
  simp only [List.length_append, List.length_cons, List.length_nil] at hlen
  have hget := congrArg (fun l => l[a.length]?) hz
  simp only [List.append_assoc, List.cons_append, List.getElem?_append_right, Nat.le_refl,
    Nat.sub_self, List.getElem?_cons_zero] at hget
  rw [List.getElem?_append_left (by omega)] at hget
  have hmem : CR ∈ text := List.mem_of_getElem? hget.symm
  have := hdigits CR hmem
  rw [CR_not_digit] at this
  cases this

theorem sizeLine_partial {text : Bytes} {n : Nat} (hv : digitsValue 16 0 text = some n)
    {t : Bytes} (ht : t <+: text ++ [CR]) : Chunk.sizeLine t = none := by
  simp [Chunk.sizeLine, untilEol_incomplete hv ht]

/-! ## One call -/

theorem ChunkText.sizeLine (c : ChunkText) (rest : Bytes) :
    Chunk.sizeLine (c.line ++ rest) = some (.ok c.data.length, rest) :=
  sizeLine_text c.size_ne c.size_eq (by
    have := c.data_le
    rw [stringMaxSize] at this
    omega) rest

/-- The chunk of which the size line has been read. -/
def ChunkText.start (c : ChunkText) : PartialChunk :=
  ⟨c.data.length, 0, c.data_pos, c.data_le, by omega⟩

theorem parse_line (c : ChunkText) (m : Message H) (t : Bytes) :
    Chunk.parse none m (c.line ++ t) = Chunk.parseData c.start m t := by
  simp only [Chunk.parse, c.sizeLine t, dif_pos c.data_pos, dif_pos c.data_le]
  rfl

/-- The loop goes on behind a chunk. -/
theorem parseChunks_encode (c : ChunkText) (m : Message H) (t : Bytes) :
    BodyStep.parseChunks (none, m) (c.encode ++ t) =
      BodyStep.parseChunks (none, m.append c.data) t := by
  have hdata : Chunk.parseData c.start m (c.data ++ crlf ++ t) =
      ⟨.Complete, (some c.start, m.append c.data), t⟩ := by
    have hlen : ¬(c.data ++ crlf ++ t).length + 0 < c.data.length + 2 := by
      simp [crlf]
    refine (dif_neg hlen).trans ((if_pos (Nat.zero_le _)).trans ?_)
    simp only [ChunkText.start, Nat.sub_zero, List.append_assoc, List.take_left, crlf]
    simp
  have hparse : Chunk.parse none m (c.encode ++ t) = ⟨.Complete, (some c.start, m.append c.data), t⟩ := by
    rw [← hdata, ← parse_line]
    simp [ChunkText.encode]
  unfold BodyStep.parseChunks
  rw [Loop.run_eq BodyStep.chunkBody_shrinks]
  by_cases ht : t = []
  · subst ht
    rw [Loop.run_eq BodyStep.chunkBody_shrinks _ (none, m.append c.data), BodyStep.chunkBody_nil]
    simp only [List.append_nil] at hparse
    simp [BodyStep.chunkBody, BodyStep.ofChunk, hparse]
  · simp [BodyStep.chunkBody, BodyStep.ofChunk, hparse, ht]

/-- The bytes received end between the CR and the LF behind the data of a chunk. -/
def CutInChunk (cs : List ChunkText) (t : Bytes) : Prop :=
  ∃ cs₁ c cs₂, cs = cs₁ ++ c :: cs₂ ∧ t = chunks cs₁ ++ c.line ++ c.data ++ [CR]

/-- The bytes received end inside the CRLF behind the last size line, or in front of it. -/
def CutInEnd (cs : List ChunkText) (t : Bytes) : Prop :=
  t = chunks cs ++ lastLine ∨ t = chunks cs ++ lastLine ++ [CR]

/-- A part of a chunk makes the loop wait. -/
theorem parseChunks_partial (c : ChunkText) (m : Message H) {t : Bytes} (ht : t <+: c.encode)
    (hne : t ≠ c.encode) :
    (BodyStep.parseChunks (none, m) t).result = .Again ∧
      ((BodyStep.parseChunks (none, m) t).state.1.NotCut ↔ t ≠ c.line ++ c.data ++ [CR]) := by
  unfold BodyStep.parseChunks
  rw [Loop.run_eq BodyStep.chunkBody_shrinks]
  by_cases hline : t <+: c.size ++ [CR]
  · -- inside the size line
    have hs := sizeLine_partial c.size_eq hline
    have hb : BodyStep.chunkBody (none, m) t = .inl ⟨.Again, (none, m), t⟩ := by
      simp [BodyStep.chunkBody, BodyStep.ofChunk, Chunk.parse, hs]
    rw [hb]
    refine ⟨rfl, fun _ => ?_, fun _ => Chunk.notCut_none⟩
    rintro rfl
    have := hline.length_le
    have := c.data_pos
    simp only [ChunkText.line, crlf, List.length_append, List.length_cons, List.length_nil] at *
    omega
  · -- behind the size line
    have hlinefix : c.line <+: t := by
      rcases List.prefix_or_prefix_of_prefix ht
        (show c.line <+: c.encode from ⟨c.data ++ crlf, by simp [ChunkText.encode]⟩) with h | h
      · rcases List.prefix_concat_iff.mp (show t <+: c.size ++ [CR] ++ [LF] from by
          simpa [ChunkText.line, crlf] using h) with h | h
        · exact ⟨[], by rw [h]; simp [ChunkText.line, crlf]⟩
        · exact absurd h hline
      · exact h
    obtain ⟨d, rfl⟩ := hlinefix
    have hd : d <+: c.data ++ [CR] ++ [LF] := by
      have : c.line ++ d <+: c.line ++ (c.data ++ [CR] ++ [LF]) := by
        simpa [ChunkText.encode, crlf] using ht
      exact (List.prefix_append_right_inj _).mp this
    have hd' : d <+: c.data ++ [CR] := by
      rcases List.prefix_concat_iff.mp hd with h | h
      · exact absurd (by rw [h]; simp [ChunkText.encode, crlf]) hne
      · exact h
    have hlen : d.length ≤ c.data.length + 1 := by simpa using hd'.length_le
    have hlt : d.length + c.start.alreadyAppendedChunkBytes < c.start.size + 2 := by
      simp only [ChunkText.start]
      omega
    have hb : BodyStep.chunkBody (none, m) (c.line ++ d) =
        .inl ⟨.Again, (some (c.start.grow d.length hlt), m.append d), []⟩ := by
      simp only [BodyStep.chunkBody, parse_line]
      rw [show Chunk.parseData c.start m d =
        ⟨.Incomplete, (some (c.start.grow d.length hlt), m.append d), []⟩ from dif_pos hlt]
      rfl
    rw [hb]
    refine ⟨rfl, ?_⟩
    have hcut : Chunk.NotCut (some (c.start.grow d.length hlt)) ↔ d.length ≤ c.data.length := by
      constructor
      · intro h
        simpa [PartialChunk.grow, ChunkText.start] using h _ rfl
      · rintro h _ ⟨⟩
        simpa [PartialChunk.grow, ChunkText.start] using h
    refine hcut.trans ⟨?_, fun h => ?_⟩
    · intro h e
      have := congrArg List.length e
      simp only [List.length_append, List.length_cons, List.length_nil] at this
      omega
    · rcases List.prefix_concat_iff.mp hd' with h' | h'
      · exact absurd (by rw [h', List.append_assoc]) h
      · exact h'.length_le

/-- A part of the last size line. -/
theorem parseChunks_lastLine (m : Message H) {t : Bytes} (ht : t <+: lastLine)
    (hne : t ≠ lastLine) : BodyStep.parseChunks (none, m) t = ⟨.Again, (none, m), t⟩ := by
  have hs : Chunk.sizeLine t = none := by
    refine sizeLine_partial (by decide : digitsValue 16 0 (lit "0") = some 0) ?_
    rcases List.prefix_concat_iff.mp (show t <+: lit "0" ++ [CR] ++ [LF] from ht) with h | h
    · exact absurd h hne
    · exact h
  unfold BodyStep.parseChunks
  rw [Loop.run_eq BodyStep.chunkBody_shrinks]
  simp [BodyStep.chunkBody, BodyStep.ofChunk, Chunk.parse, hs]

/-- The last size line ends the body; what stands behind it is not read. -/
theorem parseChunks_final (m : Message H) (t : Bytes) :
    BodyStep.parseChunks (none, m) (lastLine ++ t) = ⟨.Done, (none, m), t⟩ := by
  have hs : Chunk.sizeLine (lastLine ++ t) = some (.ok 0, t) :=
    sizeLine_text (by decide : lit "0" ≠ []) (by decide) (by decide) t
  unfold BodyStep.parseChunks
  rw [Loop.run_eq BodyStep.chunkBody_shrinks]
  simp [BodyStep.chunkBody, BodyStep.ofChunk, Chunk.parse, hs]

/-- **One call** on a first part of a chunked body. -/
theorem parse_body : ∀ (cs : List ChunkText) (m : Message H) (t : Bytes), t <+: body cs →
    (∃ w, t = chunks cs ++ lastLine ++ w ∧
      BodyStep.parseChunks (none, m) t = ⟨.Done, (none, m.append (data cs)), w⟩) ∨
    ((BodyStep.parseChunks (none, m) t).result = .Again ∧
      ((BodyStep.parseChunks (none, m) t).state.1.NotCut ↔ ¬CutInChunk cs t) ∧
      ¬chunks cs ++ lastLine <+: t)
  | [], m, t, ht => by
    by_cases hlast : lastLine <+: t
    · obtain ⟨w, rfl⟩ := hlast
      refine .inl ⟨w, by simp, ?_⟩
      rw [parseChunks_final]
      simp
    · have hpre : t <+: lastLine := by
        rcases List.prefix_or_prefix_of_prefix ht
          (show lastLine <+: body [] from ⟨crlf, by simp [body]⟩) with h | h
        · exact h
        · exact absurd h hlast
      have hne : t ≠ lastLine := fun e => hlast (e ▸ List.prefix_refl _)
      rw [parseChunks_lastLine m hpre hne]
      refine .inr ⟨rfl, ⟨?_, fun _ => Chunk.notCut_none⟩, ?_⟩
      · rintro - ⟨cs₁, c, cs₂, he, -⟩
        simp at he
      · exact hlast
  | c :: cs, m, t, ht => by
    by_cases henc : c.encode <+: t
    · obtain ⟨t', rfl⟩ := henc
      have ht' : t' <+: body cs := by
        have : c.encode ++ t' <+: c.encode ++ body cs := by simpa [body] using ht
        exact (List.prefix_append_right_inj _).mp this
      have hend : chunks (c :: cs) ++ lastLine <+: c.encode ++ t' ↔ chunks cs ++ lastLine <+: t' := by
        rw [chunks_cons, List.append_assoc]
        exact List.prefix_append_right_inj _
      have hcut : CutInChunk (c :: cs) (c.encode ++ t') ↔ CutInChunk cs t' := by
        constructor
        · rintro ⟨cs₁, d, cs₂, he, hd⟩
          cases cs₁ with
          | nil =>
            -- the cut would be behind the end of the chunk
            simp only [List.nil_append, List.cons.injEq] at he
            obtain ⟨rfl, rfl⟩ := he
            have := congrArg List.length hd
            simp [ChunkText.encode, crlf] at this
          | cons d' cs₁ =>
            simp only [List.cons_append, List.cons.injEq] at he
            obtain ⟨rfl, rfl⟩ := he
            exact ⟨cs₁, d, cs₂, rfl, by simpa using hd⟩
        · rintro ⟨cs₁, d, cs₂, rfl, rfl⟩
          exact ⟨c :: cs₁, d, cs₂, rfl, by simp⟩
      rw [parseChunks_encode, hcut, hend]
      rcases parse_body cs (m.append c.data) t' ht' with ⟨w, rfl, hp⟩ | h
      · exact .inl ⟨w, by simp, by rw [hp]; simp⟩
      · exact .inr h
    · have hpre : t <+: c.encode := by
        rcases List.prefix_or_prefix_of_prefix ht
          (show c.encode <+: body (c :: cs) from ⟨chunks cs ++ lastLine ++ crlf, by simp [body]⟩)
          with h | h
        · exact h
        · exact absurd h henc
      have hne : t ≠ c.encode := fun e => henc (e ▸ List.prefix_refl _)
      have hlt : t.length < c.encode.length := by
        refine Nat.lt_of_le_of_ne hpre.length_le fun e => hne (hpre.eq_of_length e)
      obtain ⟨hr, hcut⟩ := parseChunks_partial c m hpre hne
      refine .inr ⟨hr, hcut.trans (not_congr ⟨?_, ?_⟩), ?_⟩
      · rintro rfl
        exact ⟨[], c, cs, rfl, by simp⟩
      · rintro ⟨cs₁, d, cs₂, he, ht⟩
        cases cs₁ with
        | nil =>
          simp only [List.nil_append, List.cons.injEq] at he
          obtain ⟨rfl, -⟩ := he
          simpa using ht
        | cons d' cs₁ =>
          simp only [List.cons_append, List.cons.injEq] at he
          obtain ⟨rfl, -⟩ := he
          have := congrArg List.length ht
          simp only [chunks_cons, List.length_append] at this
          omega
      · intro h
        have := h.length_le
        simp only [chunks_cons, List.length_append] at this
        omega

/-- The bytes received end where the decoder goes wrong. -/
def Cut (cs : List ChunkText) (t : Bytes) : Prop := CutInChunk cs t ∨ CutInEnd cs t

/-- **One call** of the body step on a first part of a chunked body. -/
theorem apply_body {m : Message H} (hlen : m.headers_.contentLength = none)
    (hte : m.headers_.transferEncoding = some .Chunked) {cs : List ChunkText} {t : Bytes}
    (ht : t <+: body cs) :
    (∃ w, t = chunks cs ++ lastLine ++ w ∧
      BodyStep.apply ({}, m) t = ⟨.Done, ({}, m.append (data cs)), w⟩) ∨
    ((BodyStep.apply ({}, m) t).result = .Again ∧
      (BodyStep.NotCut (BodyStep.apply ({}, m) t).state ↔ ¬CutInChunk cs t) ∧
      ¬chunks cs ++ lastLine <+: t) := by
  have hstep : BodyStep.apply ({}, m) t =
      lift BodyStep.chunkOf BodyStep.setChunk BodyStep.parseChunks ({}, m) t := by
    simp only [BodyStep.apply, hlen, hte, BodyStep.parseTransferEncoding, if_true]
  rw [hstep]
  rcases parse_body cs m t ht with ⟨w, rfl, hp⟩ | ⟨hr, hcut, hend⟩
  · refine .inl ⟨w, rfl, ?_⟩
    simp only [lift, BodyStep.chunkOf, hp]
    rfl
  · exact .inr ⟨hr, hcut, hend⟩

theorem apply_whole {m : Message H} (hlen : m.headers_.contentLength = none)
    (hte : m.headers_.transferEncoding = some .Chunked) (cs : List ChunkText) :
    BodyStep.apply ({}, m) (body cs) = ⟨.Done, ({}, m.append (data cs)), crlf⟩ := by
  rcases apply_body hlen hte (List.prefix_refl (body cs)) with ⟨w, hw, hp⟩ | ⟨-, -, hno⟩
  · obtain rfl : crlf = w := List.append_cancel_left hw
    exact hp
  · exact absurd ⟨crlf, rfl⟩ hno

/-- A part of a body makes the step wait, where it is not cut. -/
theorem apply_part {m : Message H} (hlen : m.headers_.contentLength = none)
    (hte : m.headers_.transferEncoding = some .Chunked) {cs : List ChunkText} {t : Bytes}
    (ht : t <+: body cs) (hne : t ≠ body cs) (hcut : ¬Cut cs t) :
    (BodyStep.apply ({}, m) t).result = .Again ∧
      BodyStep.NotCut (BodyStep.apply ({}, m) t).state := by
  rcases apply_body hlen hte ht with ⟨w, hw, -⟩ | ⟨hr, hnot, -⟩
  · -- behind the last size line there is only the last CRLF
    exfalso
    have hpre : w <+: [CR] ++ [LF] := by
      have : chunks cs ++ lastLine ++ w <+: chunks cs ++ lastLine ++ crlf := hw ▸ ht
      exact (List.prefix_append_right_inj _).mp this
    rcases List.prefix_concat_iff.mp hpre with e | hpre
    · exact hne (by rw [hw, e]; rfl)
    · rcases List.prefix_concat_iff.mp (show w <+: [] ++ [CR] from hpre) with e | hpre
      · exact hcut (.inr (.inr (by rw [hw, e]; rfl)))
      · exact hcut (.inr (.inl (by rw [hw, List.prefix_nil.mp hpre, List.append_nil])))
  · exact ⟨hr, hnot.mpr fun hc => hcut (.inl hc)⟩

/-! ## A body in pieces -/

/-- A buffer and the body step that reads from it. -/
structure Decoder (H : Type) where
  buffer : ArrayStreamBuf
  step : BodyStep
  message : Message H
  deriving DecidableEq

namespace Decoder

/-- Feed a piece and call `BodyStep::apply`; `none` when the buffer refuses the piece. -/
def feedApply (d : Decoder H) (piece : Bytes) : Option (State × Decoder H) :=
  (d.buffer.feed piece).map fun buffer =>
    let o := BodyStep.apply (d.step, d.message) buffer.unread
    (o.result, { buffer := buffer.advanceTo o.rest, step := o.state.1, message := o.state.2 })

def run : Decoder H → List Bytes → Option (List State × Decoder H)
  | d, [] => some ([], d)
  | d, piece :: pieces =>
    match d.feedApply piece with
    | none => none
    | some (r, d) => (run d pieces).map fun (rs, d) => (r :: rs, d)

/-- The head of a message with a chunked body has been read, and nothing of the body. -/
structure Ready (d : Decoder H) : Prop where
  no_length : d.message.headers_.contentLength = none
  chunked : d.message.headers_.transferEncoding = some .Chunked
  no_body : d.message.body_ = []
  step : d.step = {}
  unread : d.buffer.unread = []

/-- No call throws or is refused, every call but the last asks for more and the last one is
done, the body is the data of the chunks, and `tail` is left unread. -/
def Decodes (d : Decoder H) (cs : List ChunkText) (pieces : List Bytes) (tail : Bytes) : Prop :=
  ∃ d', d.run pieces = some (List.replicate (pieces.length - 1) .Again ++ [.Done], d') ∧
    d'.message.body_ = data cs ∧ d'.buffer.unread = tail

/-- The calls of the body step, apart from the buffer. -/
def outs (d : Decoder H) (pieces : List Bytes) : List (Out State (BodyStep × Message H) UInt8) :=
  feedAll BodyStep.apply (d.step, d.message) d.buffer.unread pieces

theorem run_eq : ∀ (pieces : List Bytes) (d : Decoder H),
    d.buffer.bytes.length + pieces.flatten.length ≤ d.buffer.maxSize →
    ∃ d', d.run pieces = some ((d.outs pieces).map (·.result), d') ∧
      ∀ o, (d.outs pieces).getLast? = some o →
        d'.message = o.state.2 ∧ d'.buffer.unread = o.rest
  | [], d, _ => ⟨d, rfl, by simp [outs, feedAll]⟩
  | p :: ps, d, hfit => by
    simp only [List.flatten_cons, List.length_append] at hfit
    let o := BodyStep.apply (d.step, d.message) (d.buffer.unread ++ p)
    let b : ArrayStreamBuf := { d.buffer with unread := d.buffer.unread ++ p }
    have hfeed : d.buffer.feed p = some b := ArrayStreamBuf.feed_eq_some.mpr ⟨by omega, rfl⟩
    have hstep : d.feedApply p = some (o.result, ⟨b.advanceTo o.rest, o.state.1, o.state.2⟩) := by
      simp [feedApply, hfeed, b, o]
    have hbytes : (b.advanceTo o.rest).bytes.length = d.buffer.bytes.length + p.length := by
      rw [ArrayStreamBuf.advanceTo_bytes b (BodyStep.forward _ _)]
      simp [b, ArrayStreamBuf.bytes, Nat.add_assoc]
    obtain ⟨d', hrun, hlast⟩ := run_eq ps ⟨b.advanceTo o.rest, o.state.1, o.state.2⟩ (by
      rw [hbytes]; simpa [b, Nat.add_assoc] using hfit)
    have houts : d.outs (p :: ps) =
        o :: outs ⟨b.advanceTo o.rest, o.state.1, o.state.2⟩ ps := rfl
    refine ⟨d', by simp [run, hstep, hrun, houts], fun o' ho' => ?_⟩
    rw [houts] at ho'
    cases ps with
    | nil =>
      simp only [outs, feedAll, List.getLast?_singleton, Option.some.injEq] at ho'
      simp only [run, Option.some.injEq, Prod.mk.injEq] at hrun
      obtain ⟨-, rfl⟩ := hrun
      subst ho'
      exact ⟨rfl, rfl⟩
    | cons q qs =>
      refine hlast o' ?_
      simp only [outs, feedAll, List.getLast?_cons_cons] at ho' ⊢
      exact ho'

variable {d : Decoder H} {cs : List ChunkText} {pieces : List Bytes}

theorem Ready.apply (h : d.Ready) {t : Bytes} (ht : t <+: body cs) :
    (∃ w, t = chunks cs ++ lastLine ++ w ∧
      BodyStep.apply (d.step, d.message) t = ⟨.Done, ({}, d.message.append (data cs)), w⟩) ∨
    ((BodyStep.apply (d.step, d.message) t).result = .Again ∧
      (BodyStep.NotCut (BodyStep.apply (d.step, d.message) t).state ↔ ¬CutInChunk cs t) ∧
      ¬chunks cs ++ lastLine <+: t) := by
  rw [h.step]
  exact apply_body h.no_length h.chunked ht

/-- No piece but the last ends there. -/
def WellCut (cs : List ChunkText) (pieces : List Bytes) : Prop :=
  ∀ i, 0 < i → i < pieces.length → ¬Cut cs (pieces.take i).flatten

/-- The pieces up to the `i`-th are a first part of the body, and not all of it. -/
theorem take_flatten (hne : ∀ p ∈ pieces, p ≠ []) (hB : pieces.flatten = body cs) (i : Nat)
    (hi : i < pieces.length) :
    (pieces.take i).flatten <+: body cs ∧ (pieces.take i).flatten ≠ body cs := by
  have hsplit : (pieces.take i).flatten ++ (pieces.drop i).flatten = body cs := by
    rw [← List.flatten_append, List.take_append_drop, hB]
  refine ⟨⟨_, hsplit⟩, fun e => ?_⟩
  rw [e] at hsplit
  have hnil : (pieces.drop i).flatten = [] := List.append_right_eq_self.mp hsplit
  rw [List.drop_eq_getElem_cons hi, List.flatten_cons, List.append_eq_nil_iff] at hnil
  exact hne _ (List.getElem_mem hi) hnil.1

/-- Before the last piece the decoder waits, where it is not cut. -/
theorem Ready.waits (h : d.Ready) (hne : ∀ p ∈ pieces, p ≠ []) (hB : pieces.flatten = body cs)
    {i : Nat} (hi : i < pieces.length) (hcut : ¬Cut cs (pieces.take i).flatten) :
    (BodyStep.apply (d.step, d.message) (pieces.take i).flatten).result = .Again ∧
      BodyStep.NotCut (BodyStep.apply (d.step, d.message) (pieces.take i).flatten).state := by
  obtain ⟨hpre, hproper⟩ := take_flatten hne hB i hi
  rw [h.step]
  exact apply_part h.no_length h.chunked hpre hproper hcut

/-- Up to the first bad cut each call gives what one call on all of the pieces gives. -/
theorem Ready.outs_eq (h : d.Ready) (hne : ∀ p ∈ pieces, p ≠ []) (hB : pieces.flatten = body cs)
    {i : Nat} (hi : i < pieces.length)
    (hcut : ∀ j, 0 < j → j ≤ i → ¬Cut cs (pieces.take j).flatten) :
    (d.outs pieces)[i]? =
      some (BodyStep.apply (d.step, d.message) (pieces.take (i + 1)).flatten) := by
  have hstart : BodyStep.NotCut (d.step, d.message) := by
    rw [h.step]
    exact Chunk.notCut_none
  have hout := feedAll_eq BodyStep.resumes pieces (d.step, d.message) [] i hstart hi fun j hj => by
    rw [List.nil_append]
    exact h.waits hne hB (by omega) (hcut (j + 1) (by omega) (by omega))
  rw [outs, h.unread, hout, List.nil_append]

/-- A decoder that has been cut inside the CRLF behind a chunk throws at the next piece. -/
theorem throws_after_cut {s : BodyStep × Message H} (hlen : s.2.headers_.contentLength = none)
    (hte : s.2.headers_.transferEncoding = some .Chunked) (hcut : ¬BodyStep.NotCut s) {t : Bytes}
    (ht : t ≠ []) :
    (BodyStep.apply s t).result = .thrown (raise "basic_string::append" .Bad_Request) := by
  obtain ⟨⟨b, chunk⟩, m⟩ := s
  cases chunk with
  | none => exact absurd Chunk.notCut_none hcut
  | some c =>
    have hlt : c.size < c.alreadyAppendedChunkBytes := by
      by_contra hle
      refine hcut ?_
      rintro _ ⟨⟩
      exact Nat.le_of_not_lt hle
    have hpos := List.length_pos_iff.mpr ht
    have hparse : Chunk.parse (some c) m t =
        ⟨.thrown (.std "basic_string::append"), (some c, m), []⟩ :=
      (dif_neg (by have := c.already_le; omega)).trans (if_neg (by omega))
    simp only at hlen hte
    simp only [BodyStep.apply, hlen, hte, BodyStep.parseTransferEncoding, if_true, lift,
      BodyStep.chunkOf, BodyStep.parseChunks]
    rw [Loop.run_eq BodyStep.chunkBody_shrinks]
    simp [BodyStep.chunkBody, BodyStep.ofChunk, hparse, Exn.what]

/-- The results of calls that decode the body. -/
def goodResults (n : Nat) : List State := List.replicate (n - 1) .Again ++ [.Done]

theorem goodResults_get {n i : Nat} (hi : i < n) :
    (goodResults n)[i]? = some (if i + 1 < n then .Again else .Done) := by
  unfold goodResults
  split
  · rw [List.getElem?_append_left (by simp; omega), List.getElem?_replicate, if_pos (by omega)]
  · rw [List.getElem?_append_right (by simp; omega), List.length_replicate]
    rw [show i - (n - 1) = 0 by omega]
    rfl

/-- Pieces that are cut well are decoded, up to the CRLF at the end. -/
theorem Ready.decodes (h : d.Ready) (hfit : d.buffer.bytes.length + (body cs).length ≤ d.buffer.maxSize)
    (hne : ∀ p ∈ pieces, p ≠ []) (hB : pieces.flatten = body cs) (hwell : WellCut cs pieces) :
    d.Decodes cs pieces crlf := by
  have hpos : 0 < pieces.length := by
    rw [List.length_pos_iff]
    rintro rfl
    have := congrArg List.length hB
    simp [body, lastLine, crlf] at this
  have hall : ∀ i, i < pieces.length → (d.outs pieces)[i]? =
      some (BodyStep.apply (d.step, d.message) (pieces.take (i + 1)).flatten) := fun i hi =>
    h.outs_eq hne hB hi fun j hj hji => hwell j hj (by omega)
  have hlast : BodyStep.apply (d.step, d.message) (body cs) =
      ⟨.Done, ({}, d.message.append (data cs)), crlf⟩ := by
    rw [h.step]
    exact apply_whole h.no_length h.chunked cs
  have houts : (d.outs pieces).length = pieces.length := feedAll_length pieces _ _
  obtain ⟨d', hrun, hd'⟩ := run_eq pieces d (by rw [hB]; exact hfit)
  obtain ⟨hm, hu⟩ := hd' ⟨.Done, ({}, d.message.append (data cs)), crlf⟩ (by
    rw [List.getLast?_eq_getElem?, houts, hall _ (by omega), Nat.sub_add_cancel hpos,
      List.take_length, hB, hlast])
  refine ⟨d', ?_, by rw [hm]; simp [h.no_body], hu⟩
  rw [hrun]
  congr 2
  refine List.ext_getElem? fun i => ?_
  by_cases hi : i < pieces.length
  · rw [List.getElem?_map, hall i hi, Option.map_some]
    refine Eq.trans ?_ (goodResults_get hi).symm
    congr 1
    split
    · rename_i hlt
      exact (h.waits hne hB hlt (hwell _ (by omega) hlt)).1
    · rw [show i + 1 = pieces.length by omega, List.take_length, hB, hlast]
  · rw [List.getElem?_eq_none (by simp [houts]; omega),
      List.getElem?_eq_none (by simp; omega)]

/-- Results as they should be come from pieces that are cut well. -/
theorem Ready.wellCut (h : d.Ready) (hfit : d.buffer.bytes.length + (body cs).length ≤ d.buffer.maxSize)
    (hne : ∀ p ∈ pieces, p ≠ []) (hB : pieces.flatten = body cs) {tail : Bytes}
    (hdec : d.Decodes cs pieces tail) : WellCut cs pieces := by
  obtain ⟨d', hrun, -, -⟩ := hdec
  obtain ⟨d'', hrun', -⟩ := run_eq pieces d (by rw [hB]; exact hfit)
  have hres : (d.outs pieces).map (·.result) = goodResults pieces.length := by
    rw [hrun'] at hrun
    exact (Prod.mk.inj (Option.some.inj hrun)).1
  have hget : ∀ i o, i < pieces.length → (d.outs pieces)[i]? = some o →
      o.result = if i + 1 < pieces.length then .Again else .Done := by
    intro i o hi ho
    have := congrArg (fun l => l[i]?) hres
    simp only [List.getElem?_map, ho, Option.map_some, goodResults_get hi] at this
    exact Option.some.inj this
  -- at the first bad cut, the call on the pieces so far or the next one goes wrong
  intro i
  induction i using Nat.strong_induction_on with
  | _ i ih =>
    intro hpos hi hcut
    have hout := h.outs_eq hne hB (i := i - 1) (by omega) fun j hj hji =>
      ih j (by omega) hj (by omega)
    rw [Nat.sub_add_cancel hpos] at hout
    have hagain := hget (i - 1) _ (by omega) hout
    rw [if_pos (by omega)] at hagain
    rcases h.apply (take_flatten hne hB i hi).1 with ⟨w, -, hp⟩ | ⟨-, hnot, hno⟩
    · rw [hp] at hagain
      cases hagain
    · rcases hcut with hcut | hcut
      · have hsplit : ¬BodyStep.NotCut
            (BodyStep.apply (d.step, d.message) (pieces.take i).flatten).state :=
          fun hn => hnot.mp hn hcut
        have hnext := feedAll_succ pieces (d.step, d.message) d.buffer.unread (i - 1) _
          (pieces.get ⟨i, hi⟩) hout (by rw [Nat.sub_add_cancel hpos]; simp)
        rw [Nat.sub_add_cancel hpos] at hnext
        have hheaders := BodyStep.apply_headers (d.step, d.message) (pieces.take i).flatten
        have hthrow := throws_after_cut (by rw [hheaders]; exact h.no_length)
          (by rw [hheaders]; exact h.chunked) hsplit
          (t := (BodyStep.apply (d.step, d.message) (pieces.take i).flatten).rest ++
            pieces.get ⟨i, hi⟩)
          (by simp only [ne_eq, List.append_eq_nil_iff, not_and]
              exact fun _ => hne _ (List.get_mem pieces ⟨i, hi⟩))
        have hbad := hget i _ hi hnext
        rw [hthrow] at hbad
        split at hbad <;> cases hbad
      · rcases hcut with hcut | hcut
        · exact hno ⟨[], by rw [hcut, List.append_nil]⟩
        · exact hno ⟨[CR], hcut.symm⟩

end Decoder

/-- **Segmentation.** A chunked body is never decoded up to its end: the CRLF behind the last
size line stays unread.  Up to there it is decoded from all pieces, whatever their sizes,
unless a piece ends between the CR and the LF behind the data of a chunk, or inside or in
front of the last CRLF. -/
theorem Decoder.segmentation (d : Decoder H) (h : d.Ready) (cs : List ChunkText)
    (hfit : d.buffer.bytes.length + (body cs).length ≤ d.buffer.maxSize) (pieces : List Bytes)
    (hne : ∀ p ∈ pieces, p ≠ []) (hB : pieces.flatten = body cs) :
    ¬d.Decodes cs pieces [] ∧ (d.Decodes cs pieces crlf ↔ WellCut cs pieces) := by
  have hiff : d.Decodes cs pieces crlf ↔ WellCut cs pieces :=
    ⟨h.wellCut hfit hne hB, h.decodes hfit hne hB⟩
  refine ⟨fun hdec => ?_, hiff⟩
  obtain ⟨d₁, hrun₁, -, hu₁⟩ := h.decodes hfit hne hB (h.wellCut hfit hne hB hdec)
  obtain ⟨d₂, hrun₂, -, hu₂⟩ := hdec
  rw [hrun₁] at hrun₂
  obtain ⟨-, rfl⟩ := Prod.mk.inj (Option.some.inj hrun₂)
  rw [hu₁] at hu₂
  cases hu₂

/-! ### The chunk `hello` -/

def hello : ChunkText := ⟨lit "5", lit "hello", by decide, by decide, by decide⟩

/-- A decoder behind the head of a chunked message. -/
def start : Decoder Unit where
  buffer := .new 4096
  step := {}
  message :=
    { headers_ := ⟨[(lit "transfer-encoding", .TransferEncoding .Chunked)], []⟩ }

theorem start_ready : start.Ready := ⟨by decide, by decide, rfl, rfl, rfl⟩

theorem hello_whole : start.Decodes [hello] [body [hello]] crlf :=
  (start.segmentation start_ready [hello] (by decide) [body [hello]] (by decide) (by decide)).2.mpr
    (by
      intro i hpos hi
      simp only [List.length_singleton] at hi
      omega)

theorem hello_cut : [lit "5" ++ crlf ++ lit "hello" ++ [CR], [LF] ++ lastLine ++ crlf].flatten =
      body [hello] ∧
    ¬start.Decodes [hello] [lit "5" ++ crlf ++ lit "hello" ++ [CR], [LF] ++ lastLine ++ crlf] [] := by
  refine ⟨by decide, ?_⟩
  rintro ⟨d', hrun, -⟩
  have hresults := congrArg (Option.map Prod.fst) hrun
  have hthrown : (start.run [lit "5" ++ crlf ++ lit "hello" ++ [CR], [LF] ++ lastLine ++ crlf]).map
      Prod.fst = some [.Again, .thrown (raise "basic_string::append" .Bad_Request)] := by decide
  rw [hthrown] at hresults
  cases hresults

end Pistache.Http.Chunked
