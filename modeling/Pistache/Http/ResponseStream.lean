import Pistache.Common.Ostream
import Pistache.Http.Chunked

/-!
# Chunked response streams

`ResponseStream`: the buffer, which holds the header block to begin with, and the bytes that
have been given to `Transport::asyncWrite`.  `write` does not look at the state of its
`std::ostream`, so that what the buffer does not take is lost without an error.

* `ResponseStream.stream_wire` — the text that a stream of which all writes fit produces.
* `ResponseStream.decodes_iff` — it is decoded to the data written if and only if no write is
  empty.
-/

set_option autoImplicit false

namespace Pistache.Http

open Chunked (crlf ChunkText)

variable {H : Type}

structure ResponseStream where
  buf_ : DynamicStreamBuf
  wire : Bytes := []
  deriving DecidableEq

namespace ResponseStream

/-- A stream whose constructor has written the header block. -/
def start (header : Bytes) (maxResponseSize : Nat) (h : header.length ≤ maxResponseSize) :
    ResponseStream where
  buf_ := ⟨header, maxResponseSize, h⟩

/-- `ResponseStream::write`. -/
def write (stream : ResponseStream) (data : Bytes) : ResponseStream :=
  let os : Ostream := { buf := stream.buf_ }
  let os := (os.write (numeral 16 data.length)).write crlf
  let os := os.write data
  let os := os.write crlf
  { stream with buf_ := os.buf }

/-- `ResponseStream::flush`; the argument is what `timeout_.disarm` or `peer` throws. -/
def flush (stream : ResponseStream) (thrown : Option Exn) : Except Exn ResponseStream :=
  match thrown with
  | some e => .error e
  | none => .ok { buf_ := stream.buf_.clear, wire := stream.wire ++ stream.buf_.data }

/-- `ResponseStream::ends`. -/
def ends (stream : ResponseStream) (thrown : Option Exn) : Except Exn ResponseStream :=
  let os : Ostream := { buf := stream.buf_ }
  let os := (os.write (lit "0")).write crlf
  let os := os.write crlf
  if os.bad then .error (.std "Response exceeded buffer size")
  else flush { stream with buf_ := os.buf } thrown

inductive Call where
  | write (data : Bytes)
  | flush (thrown : Option Exn)

def call (stream : ResponseStream) : Call → Except Exn ResponseStream
  | .write data => .ok (stream.write data)
  | .flush thrown => stream.flush thrown

def calls : ResponseStream → List Call → Except Exn ResponseStream
  | stream, [] => .ok stream
  | stream, c :: cs =>
    match stream.call c with
    | .error e => .error e
    | .ok stream => stream.calls cs

/-- The calls, and `ends` behind them. -/
def run (stream : ResponseStream) (cs : List Call) (thrown : Option Exn) :
    Except Exn ResponseStream :=
  match stream.calls cs with
  | .error e => .error e
  | .ok stream => stream.ends thrown

def Call.data? : Call → Option Bytes
  | .write data => some data
  | .flush _ => none

/-- The data of the writes. -/
def written (cs : List Call) : List Bytes := cs.filterMap Call.data?

/-- The chunk that a write makes of its data. -/
def chunk (data : Bytes) : Bytes := numeral 16 data.length ++ crlf ++ data ++ crlf

/-- The buffer has room for what the call writes. -/
def Fits (stream : ResponseStream) : Call → Prop
  | .write data => (chunk data).length ≤ stream.buf_.free
  | .flush _ => True

/-- Every call that is made finds room for what it writes. -/
def FitsAll : ResponseStream → List Call → Prop
  | _, [] => True
  | stream, c :: cs => stream.Fits c ∧ ∀ stream', stream.call c = .ok stream' → stream'.FitsAll cs

/-- `BodyStep::parseTransferEncoding`, given the bytes in one piece, is done with the body
`data`, and nothing but the CRLF that ends a chunked body is left. -/
def Decodes (bytes data : Bytes) : Prop :=
  let o := BodyStep.parseTransferEncoding .Chunked ({}, ({} : Message H)) bytes
  o.result = .Done ∧ o.state.2.body_ = data ∧ o.rest = crlf

instance (bytes data : Bytes) : Decidable (Decodes (H := H) bytes data) := by
  unfold Decodes; infer_instance

/-! ## What is produced -/

theorem write_eq (stream : ResponseStream) (data : Bytes) :
    stream.write data =
      { stream with buf_ := (({ buf := stream.buf_ } : Ostream).write (chunk data)).buf } := by
  simp [write, chunk]

theorem write_fits {stream : ResponseStream} {data : Bytes}
    (h : (chunk data).length ≤ stream.buf_.free) :
    stream.write data = { stream with buf_ := stream.buf_.sputn (chunk data) } := by
  rw [write_eq, Ostream.write_fits rfl h]

/-- What a call adds behind all that has been written before it. -/
theorem call_produced {stream stream' : ResponseStream} {c : Call} (hfits : stream.Fits c)
    (h : stream.call c = .ok stream') :
    stream'.wire ++ stream'.buf_.data =
      stream.wire ++ stream.buf_.data ++ (c.data?.map chunk).getD [] := by
  cases c with
  | write data =>
    cases h
    rw [write_fits hfits]
    change stream.wire ++ (stream.buf_.sputn (chunk data)).data = _
    rw [DynamicStreamBuf.sputn_data hfits, List.append_assoc]
    rfl
  | flush thrown =>
    cases thrown with
    | some e => cases h
    | none =>
      cases h
      simp [Call.data?]

theorem calls_produced : ∀ (cs : List Call) (stream : ResponseStream) {stream' : ResponseStream},
    stream.FitsAll cs → stream.calls cs = .ok stream' →
      stream'.wire ++ stream'.buf_.data =
        stream.wire ++ stream.buf_.data ++ ((written cs).map chunk).flatten
  | [], stream, stream', _, h => by
    cases h
    simp [written]
  | c :: cs, stream, stream', hfits, h => by
    unfold calls at h
    cases hc : stream.call c with
    | error e => simp [hc] at h
    | ok next =>
      simp only [hc] at h
      have hnext := call_produced hfits.1 hc
      have ih := calls_produced cs next (hfits.2 next hc) h
      rw [ih, hnext]
      cases hd : c.data? <;> simp [written, hd]

/-- The two lines that `ends` writes. -/
def lastChunk : Bytes := Chunked.lastLine ++ crlf

theorem ends_produced {stream stream' : ResponseStream} {thrown : Option Exn}
    (h : stream.ends thrown = .ok stream') :
    stream'.wire = stream.wire ++ stream.buf_.data ++ lastChunk := by
  have hwrite : ((({ buf := stream.buf_ } : Ostream).write (lit "0")).write crlf).write crlf =
      ({ buf := stream.buf_ } : Ostream).write lastChunk := by
    simp [lastChunk, Chunked.lastLine]
  unfold ends at h
  simp only [hwrite] at h
  by_cases hfits : lastChunk.length ≤ stream.buf_.free
  · rw [Ostream.write_fits rfl hfits] at h
    cases thrown with
    | some e => simp [flush] at h
    | none =>
      simp only [Bool.false_eq_true, if_false, flush, Except.ok.injEq] at h
      subst h
      change stream.wire ++ (stream.buf_.sputn lastChunk).data = _
      rw [DynamicStreamBuf.sputn_data hfits, List.append_assoc]
  · have hbad : (({ buf := stream.buf_ } : Ostream).write lastChunk).bad = true := by
      simpa [Ostream.write] using hfits
    simp [hbad] at h

/-- **The text of a stream** of which every write fits. -/
theorem stream_wire {header : Bytes} {maxResponseSize : Nat} {hle : header.length ≤ maxResponseSize}
    {cs : List Call} {thrown : Option Exn} {stream : ResponseStream}
    (hfits : (start header maxResponseSize hle).FitsAll cs)
    (h : (start header maxResponseSize hle).run cs thrown = .ok stream) :
    stream.wire = header ++ (((written cs).map chunk).flatten ++ lastChunk) := by
  unfold run at h
  cases hc : (start header maxResponseSize hle).calls cs with
  | error e => simp [hc] at h
  | ok next =>
    simp only [hc] at h
    rw [ends_produced h, calls_produced cs _ hfits hc]
    simp [start]

/-! ## What is decoded -/

/-- The chunk of data that is not empty and fits into a string. -/
def chunkText (data : Bytes) (hne : data ≠ []) (hle : data.length ≤ stringMaxSize) : ChunkText where
  size := numeral 16 data.length
  data := data
  data_ne := hne
  data_le := hle
  size_eq := digitsValue_numeral (by decide) (by decide) data.length

theorem parseChunks_chunk {data : Bytes} (hne : data ≠ []) (hle : data.length ≤ stringMaxSize)
    (m : Message H) (rest : Bytes) :
    BodyStep.parseChunks (none, m) (chunk data ++ rest) =
      BodyStep.parseChunks (none, m.append data) rest :=
  Chunked.parseChunks_encode (chunkText data hne hle) m rest

/-- An empty write looks like the end of the body. -/
theorem parseChunks_empty (m : Message H) (rest : Bytes) :
    BodyStep.parseChunks (none, m) (chunk [] ++ rest) = ⟨.Done, (none, m), crlf ++ rest⟩ := by
  have hchunk : chunk [] ++ rest = Chunked.lastLine ++ (crlf ++ rest) := by
    simp [chunk, Chunked.lastLine, lit, numeral, digitChar]
  rw [hchunk, Chunked.parseChunks_final]

/-- The decoder refuses a size that no string can have. -/
theorem parseChunks_long {data : Bytes} (hlong : stringMaxSize < data.length) (m : Message H)
    (rest : Bytes) : (BodyStep.parseChunks (none, m) (chunk data ++ rest)).result ≠ .Done := by
  have hvalue := digitsValue_numeral (show 1 < 16 by decide) (by decide) data.length
  have hthrown : ∃ e more, Chunk.parse none m (chunk data ++ rest) =
      ⟨.thrown e, (none, m), more⟩ := by
    by_cases hlt : data.length < 2 ^ 64
    · have hline : Chunk.sizeLine (chunk data ++ rest) =
          some (.ok data.length, data ++ crlf ++ rest) := by
        have := Chunked.sizeLine_text (numeral_ne_nil 16 _) hvalue hlt (data ++ crlf ++ rest)
        simpa [chunk] using this
      simp only [Chunk.parse, hline, dif_pos (Nat.zero_lt_of_lt hlong),
        dif_neg (Nat.not_le.mpr hlong)]
      exact ⟨_, _, rfl⟩
    · obtain ⟨e, he⟩ := from_chars_long hvalue hlt
      have hline := Chunked.untilEol_digits hvalue (data ++ crlf ++ rest)
      have htext : chunk data ++ rest =
          numeral 16 data.length ++ CR :: LF :: (data ++ crlf ++ rest) := by
        simp [chunk, crlf]
      simp only [Chunk.parse, Chunk.sizeLine, htext, hline, he]
      exact ⟨_, _, rfl⟩
  obtain ⟨e, more, hthrown⟩ := hthrown
  unfold BodyStep.parseChunks
  rw [Loop.run_eq BodyStep.chunkBody_shrinks]
  simp [BodyStep.chunkBody, BodyStep.ofChunk, hthrown]

/-- The writes that the decoder takes for a chunk. -/
def Plain (data : Bytes) : Prop := data ≠ [] ∧ data.length ≤ stringMaxSize

/-- The body of writes, from the message that the decoder has reached. -/
theorem parseChunks_iff : ∀ (ds : List Bytes) (m : Message H),
    ((BodyStep.parseChunks (none, m) ((ds.map chunk).flatten ++ lastChunk)).result = .Done ∧
      (BodyStep.parseChunks (none, m) ((ds.map chunk).flatten ++ lastChunk)).state.2.body_ =
        m.body_ ++ ds.flatten ∧
      (BodyStep.parseChunks (none, m) ((ds.map chunk).flatten ++ lastChunk)).rest = crlf) ↔
    ∀ data ∈ ds, Plain data
  | [], m => by
    have hfinal := Chunked.parseChunks_final m crlf
    simp [lastChunk, hfinal]
  | data :: ds, m => by
    have hcons : ((data :: ds).map chunk).flatten ++ lastChunk =
        chunk data ++ ((ds.map chunk).flatten ++ lastChunk) := by simp
    rw [hcons]
    by_cases hne : data = []
    · subst hne
      rw [parseChunks_empty]
      simp [Plain, lastChunk, crlf]
    · by_cases hle : data.length ≤ stringMaxSize
      · rw [parseChunks_chunk hne hle]
        have ih := parseChunks_iff ds (m.append data)
        simp only [Message.append_body, List.append_assoc] at ih
        rw [List.flatten_cons, ih]
        simp [Plain, hne, hle]
      · have hdone := parseChunks_long (H := H) (Nat.lt_of_not_le hle) m
          ((ds.map chunk).flatten ++ lastChunk)
        simp [Plain, hne, hle, hdone]

/-- **Streaming is undone by decoding** if and only if no write is empty, where every write
finds room in the buffer. -/
theorem decodes_iff (header : Bytes) (maxResponseSize : Nat) (hle : header.length ≤ maxResponseSize)
    (cs : List Call) (thrown : Option Exn) (stream : ResponseStream)
    (hfits : (start header maxResponseSize hle).FitsAll cs)
    (hrun : (start header maxResponseSize hle).run cs thrown = .ok stream) :
    Decodes (H := H) (stream.wire.drop header.length) (written cs).flatten ↔
      ∀ data ∈ written cs, Plain data := by
  rw [stream_wire hfits hrun, List.drop_left]
  exact parseChunks_iff (written cs) {}

/-! ### Streams -/

def twoWrites : List Call := [.write (lit "hello"), .flush none, .write (lit "you")]

def twoWritten : ResponseStream :=
  ⟨⟨[], 32, by decide⟩, lit "head5\r\nhello\r\n3\r\nyou\r\n0\r\n\r\n"⟩

theorem decodes_iff_twoWrites : Decodes (H := Unit)
    (twoWritten.wire.drop (lit "head").length) (written twoWrites).flatten := by
  refine (decodes_iff (lit "head") 32 (by decide) twoWrites none twoWritten ?_
    (by decide)).mpr ?_
  · refine ⟨by unfold Fits; decide, fun _ h => ?_⟩
    cases h
    refine ⟨trivial, fun _ h => ?_⟩
    cases h
    exact ⟨by unfold Fits; decide, fun _ _ => trivial⟩
  · unfold Plain
    decide

/-- The bytes of a run without an error. -/
def wireOf : Except Exn ResponseStream → Option Bytes
  | .ok stream => some stream.wire
  | .error _ => none

/-- An empty write in the middle, and one that the buffer can not take: no call reports an
error. -/
theorem not_decoded :
    (wireOf ((start [] 64 (by decide)).run [.write (lit "a"), .write [], .write (lit "b")] none) =
        some (lit "1\r\na\r\n0\r\n\r\n1\r\nb\r\n0\r\n\r\n") ∧
      ¬Decodes (H := Unit) (lit "1\r\na\r\n0\r\n\r\n1\r\nb\r\n0\r\n\r\n") (lit "ab")) ∧
    (wireOf ((start [] 8 (by decide)).run [.write (lit "hello!"), .flush none] none) =
        some (lit "6\r\nhello0\r\n\r\n") ∧
      ¬Decodes (H := Unit) (lit "6\r\nhello0\r\n\r\n") (lit "hello!")) := by
  decide

end ResponseStream

end Pistache.Http
