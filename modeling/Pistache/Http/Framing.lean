import Pistache.Http.Chunked
import Pistache.Http.Handler

/-!
# Framing on a persistent connection

A well-formed request is a head that the parser accepts to its end and the body that this head
declares.  Requests come one after the other, and `onInput` is called with the segments into
which their bytes are cut.

* `Wellformed.part`, `Wellformed.whole` — one parse of a part of a request and of all of it.
* `Mid.onInput_part`, `Mid.onInput_whole` — one segment in the middle of a request, and the
  last one.
* `framing` — every request once and in order, when no segment runs over the end of a request.
-/

set_option autoImplicit false

namespace Pistache.Http

open Resumable

variable {H : Type}

/-! ## Well-formed requests -/

/-- The body of a request: none, one of declared length, or a chunked one. -/
inductive BodyText where
  | none
  | length (data : Bytes)
  | chunked (cs : List Chunked.ChunkText)

namespace BodyText

def bytes : BodyText → Bytes
  | none => []
  | length data => data
  | chunked cs => Chunked.body cs

/-- The headers declare the body. -/
def DeclaredBy (headers : Header.Collection H) : BodyText → Prop
  | none => headers.contentLength = .none ∧ headers.transferEncoding = .none
  | length data => ∃ n, headers.contentLength = some n ∧ headers.transferEncoding = .none ∧
      data.length = n.toNat
  | chunked _ => headers.contentLength = .none ∧ headers.transferEncoding = some .Chunked

/-- A first part of the body that ends where the decoder of chunks goes wrong. -/
def Cut (t : Bytes) : BodyText → Prop
  | chunked cs => Chunked.Cut cs t
  | _ => False

/-- A part of the body makes the body step wait. -/
theorem part {m : Message H} {body : BodyText} (h : body.DeclaredBy m.headers_) {t : Bytes}
    (ht : t <+: body.bytes) (hne : t ≠ body.bytes) (hcut : ¬body.Cut t) :
    (BodyStep.apply ({}, m) t).result = .Again ∧
      BodyStep.NotCut (BodyStep.apply ({}, m) t).state := by
  cases body with
  | none => exact absurd (List.prefix_nil.mp ht) hne
  | chunked cs => exact Chunked.apply_part h.1 h.2 ht hne hcut
  | length data =>
    obtain ⟨n, hlen, hte, hn⟩ := h
    have hlt : t.length < (BodyStep.missing n {}).toNat := by
      rw [BodyStep.missing, UInt64.sub_zero, ← hn]
      exact Nat.lt_of_le_of_ne ht.length_le fun e => hne (ht.eq_of_length e)
    have hstep : BodyStep.apply ({}, m) t = ⟨.Again,
        ({ bytesRead := 0 + UInt64.ofNat t.length }, m.append t), []⟩ := by
      simp only [BodyStep.apply, hlen, hte]
      rw [BodyStep.parseContentLength_eq, if_pos hlt]
    rw [hstep]
    exact ⟨rfl, Chunk.notCut_none⟩

/-- Behind a first part that ends where the decoder of chunks goes wrong, either the body step
does not wait or its next call does not. -/
theorem cut {m : Message H} {body : BodyText} (h : body.DeclaredBy m.headers_) {t : Bytes}
    (ht : t <+: body.bytes) (hcut : body.Cut t) :
    (BodyStep.apply ({}, m) t).result ≠ .Again ∨
      ∀ x ≠ [], ∃ e, (BodyStep.apply (BodyStep.apply ({}, m) t).state
        ((BodyStep.apply ({}, m) t).rest ++ x)).result = .thrown e := by
  cases body with
  | none => exact hcut.elim
  | length data => exact hcut.elim
  | chunked cs =>
    rcases Chunked.apply_body h.1 h.2 ht with ⟨w, -, hdone⟩ | ⟨-, hnot, hno⟩
    · exact .inl (by rw [hdone]; simp)
    · rcases hcut with hcut | hcut | hcut
      · have hheaders := BodyStep.apply_headers ({}, m) t
        refine .inr fun x hx => ⟨_, Chunked.Decoder.throws_after_cut (by rw [hheaders]; exact h.1)
          (by rw [hheaders]; exact h.2) (fun hn => hnot.mp hn hcut) ?_⟩
        simp [hx]
      · exact absurd ⟨[], by rw [hcut, List.append_nil]⟩ hno
      · exact absurd ⟨[CR], hcut.symm⟩ hno

/-- All of the body ends the body step, which leaves nothing behind in its fields. -/
theorem whole {m : Message H} {body : BodyText} (h : body.DeclaredBy m.headers_) :
    ∃ m' rest, BodyStep.apply ({}, m) body.bytes = ⟨.Done, ({}, m'), rest⟩ := by
  cases body with
  | none =>
    refine ⟨m, [], ?_⟩
    simp only [BodyStep.apply, h.1, h.2]
    rfl
  | chunked cs => exact ⟨_, _, Chunked.apply_whole h.1 h.2 cs⟩
  | length data =>
    obtain ⟨n, hlen, hte, hn⟩ := h
    have hle : ¬data.length < (BodyStep.missing n {}).toNat := by
      rw [BodyStep.missing, UInt64.sub_zero, ← hn]
      omega
    refine ⟨m.append (data.take (BodyStep.missing n {}).toNat),
      data.drop (BodyStep.missing n {}).toNat, ?_⟩
    simp only [BodyStep.apply, hlen, hte, bytes]
    rw [BodyStep.parseContentLength_eq, if_neg hle]

end BodyText

/-! ## Messages of a head and a body -/

section Message

variable {L : Type} {registry : Registry H} {line : Step (Derived H L)} {m₀ m : Derived H L}
  {head : Bytes}

/-- Behind a head that is accepted the parse is the body step. -/
theorem parse_behind_head (hset : Settles State.Again (fun _ => True) line)
    (hres : Resumes State.Again (fun _ => True) line)
    (haccepted : parseHead registry line (0, m₀) head = ⟨.Next, (2, m), []⟩) (b : Bytes) :
    Work.parse registry line (0, ⟨m₀, {}⟩) (head ++ b) =
      ⟨(BodyStep.apply ({}, m.toMessage) b).result,
        (2, ⟨{ m with toMessage := (BodyStep.apply ({}, m.toMessage) b).state.2 },
          (BodyStep.apply ({}, m.toMessage) b).state.1⟩),
        (BodyStep.apply ({}, m.toMessage) b).rest⟩ := by
  have hsettled := head_settles registry hset hres (0, m₀) head trivial
    (by rw [haccepted]; simp) b
  rw [haccepted, Out.more_mk, List.nil_append] at hsettled
  rw [Work.parse_eq registry 0 (by omega), hsettled]
  rfl

/-- **A part of a message** makes the parser wait. -/
theorem parse_part (hset : Settles State.Again (fun _ => True) line)
    (hres : Resumes State.Again (fun _ => True) line)
    (haccepted : parseHead registry line (0, m₀) head = ⟨.Next, (2, m), []⟩) {body : BodyText}
    (hdeclared : body.DeclaredBy m.headers_) {t : Bytes} (ht : t <+: head ++ body.bytes)
    (hne : t ≠ head ++ body.bytes) (hcut : ∀ b, t = head ++ b → ¬body.Cut b) :
    (Work.parse registry line (0, ⟨m₀, {}⟩) t).result = .Again ∧
      (Work.parse registry line (0, ⟨m₀, {}⟩) t).state.2.NotCut := by
  by_cases hhead : head <+: t
  · obtain ⟨b, rfl⟩ := hhead
    have hb : b <+: body.bytes := (List.prefix_append_right_inj _).mp ht
    have hbne : b ≠ body.bytes := by
      rintro rfl
      exact hne rfl
    rw [parse_behind_head hset hres haccepted b]
    exact BodyText.part hdeclared hb hbne (hcut b rfl)
  · have hpre : t <+: head :=
      (List.prefix_or_prefix_of_prefix ht (List.prefix_append _ _)).resolve_right hhead
    have hpart := parseHead_part registry hset hres haccepted hpre
      fun e => hhead (e ▸ List.prefix_refl _)
    rw [Work.parse_eq registry 0 (by omega), if_neg (by rw [hpart]; simp)]
    exact ⟨hpart, Chunk.notCut_none⟩

end Message

/-- A request that is well formed: its head, what the parser reads from the head, and the
body. -/
structure Wellformed (registry : Registry H) where
  head : Bytes
  message : Request H
  body : BodyText
  accepted : parseHead registry RequestLineStep.apply (0, Request.new) head =
    ⟨.Next, (2, message), []⟩
  declared : body.DeclaredBy message.headers_

/-- What one call of `parse` makes of the bytes `t` in a new parser. -/
def parseNew (registry : Registry H) (t : Bytes) : Out State (Nat × Work H RequestLine) UInt8 :=
  Work.parse registry RequestLineStep.apply (0, ⟨Request.new, {}⟩) t

theorem parseNew_part {registry : Registry H} {head t : Bytes} {p : Nat × Request H}
    (haccepted : parseHead registry RequestLineStep.apply (0, Request.new) head = ⟨.Next, p, []⟩)
    (ht : t <+: head) (hne : t ≠ head) :
    (parseNew registry t).result = .Again ∧ (parseNew registry t).state.2.NotCut := by
  have hpart := parseHead_part registry RequestLineStep.settles RequestLineStep.resumes haccepted
    ht hne
  rw [parseNew, Work.parse_eq registry 0 (by omega), if_neg (by rw [hpart]; simp)]
  exact ⟨hpart, Chunk.notCut_none⟩

namespace Wellformed

variable {registry : Registry H} (r : Wellformed registry)

def bytes : Bytes := r.head ++ r.body.bytes

/-- A first part of the request that ends where the decoder of chunks goes wrong. -/
def Cut (t : Bytes) : Prop := ∃ b, t = r.head ++ b ∧ r.body.Cut b

/-- Behind the head the parse is the body step. -/
theorem parseNew_head (b : Bytes) :
    parseNew registry (r.head ++ b) =
      ⟨(BodyStep.apply ({}, r.message.toMessage) b).result,
        (2, ⟨{ r.message with toMessage := (BodyStep.apply ({}, r.message.toMessage) b).state.2 },
          (BodyStep.apply ({}, r.message.toMessage) b).state.1⟩),
        (BodyStep.apply ({}, r.message.toMessage) b).rest⟩ :=
  parse_behind_head RequestLineStep.settles RequestLineStep.resumes r.accepted b

/-- **A part of a request** makes the parser wait. -/
theorem part {t : Bytes} (ht : t <+: r.bytes) (hne : t ≠ r.bytes) (hcut : ¬r.Cut t) :
    (parseNew registry t).result = .Again ∧ (parseNew registry t).state.2.NotCut :=
  parse_part RequestLineStep.settles RequestLineStep.resumes r.accepted r.declared ht hne
    fun b hb hc => hcut ⟨b, hb, hc⟩

/-- **All of a request** is a message, and the fields of the body step are as in a new
parser. -/
theorem whole : ∃ m rest, parseNew registry r.bytes = ⟨.Done, (2, ⟨m, {}⟩), rest⟩ := by
  obtain ⟨m', rest, hbody⟩ := BodyText.whole r.declared
  refine ⟨{ r.message with toMessage := m' }, rest, ?_⟩
  rw [bytes, r.parseNew_head, hbody]

end Wellformed

/-! ## One request in pieces -/

/-- The parser has received the bytes `t` of a message, in pieces, and goes on like one that
has received them at once. -/
structure Mid (registry : Registry H) (p : ParserBase H RequestLine) (t : Bytes) : Prop where
  bytes : p.buffer.bytes = t
  notCut : p.toWork.NotCut
  parse : ∀ z, Work.parse registry RequestLineStep.apply (p.currentStep, p.toWork)
    (p.buffer.unread ++ z) = parseNew registry (t ++ z)

namespace Mid

variable {registry : Registry H} {p : ParserBase H RequestLine} {t : Bytes}

theorem new (registry : Registry H) (maxSize : Nat) :
    Mid registry (RequestParser.new maxSize) [] where
  bytes := rfl
  notCut := Chunk.notCut_none
  parse _ := rfl

/-- A segment that is not refused, and the call of `parse` behind it. -/
theorem feed_parse (h : Mid registry p t) {x : Bytes}
    (hfit : t.length + x.length ≤ p.buffer.maxSize) :
    ∃ p', p.feed x = some p' ∧ RequestParser.parse registry p' =
      ((parseNew registry (t ++ x)).result,
        { toWork := (parseNew registry (t ++ x)).state.2
          currentStep := (parseNew registry (t ++ x)).state.1
          buffer := p'.buffer.advanceTo (parseNew registry (t ++ x)).rest }) ∧
      p'.buffer.bytes = t ++ x ∧ p'.buffer.maxSize = p.buffer.maxSize ∧
      (parseNew registry (t ++ x)).rest <:+ p'.buffer.unread := by
  let b : ArrayStreamBuf := { p.buffer with unread := p.buffer.unread ++ x }
  have hfeed : p.buffer.feed x = some b :=
    ArrayStreamBuf.feed_eq_some.mpr ⟨by rw [h.bytes]; exact hfit, rfl⟩
  refine ⟨{ p with buffer := b }, by rw [ParserBase.feed, hfeed]; rfl, ?_, ?_, rfl, ?_⟩
  · have hout : ParserBase.outcome registry RequestLineStep.apply { p with buffer := b } =
        parseNew registry (t ++ x) := h.parse x
    rw [RequestParser.parse, ParserBase.parse, hout]
  · change p.buffer.read ++ (p.buffer.unread ++ x) = t ++ x
    rw [← List.append_assoc, ← h.bytes, ArrayStreamBuf.bytes]
  · rw [← h.parse x]
    exact Work.forward registry RequestLineStep.forward _ _

/-- Behind a segment that makes the parser wait it is in the middle of the message still. -/
theorem waits {x : Bytes} {p' : ParserBase H RequestLine} (hbytes : p'.buffer.bytes = t ++ x)
    (hrest : (parseNew registry (t ++ x)).rest <:+ p'.buffer.unread)
    (hagain : (parseNew registry (t ++ x)).result = .Again)
    (hcut : (parseNew registry (t ++ x)).state.2.NotCut) :
    Mid registry
      { toWork := (parseNew registry (t ++ x)).state.2
        currentStep := (parseNew registry (t ++ x)).state.1
        buffer := p'.buffer.advanceTo (parseNew registry (t ++ x)).rest } (t ++ x) := by
  refine ⟨?_, hcut, fun z => ?_⟩
  · exact (ArrayStreamBuf.advanceTo_bytes p'.buffer hrest).trans hbytes
  · have hres := Work.resumes registry RequestLineStep.settles RequestLineStep.resumes
      (0, ⟨Request.new, {}⟩) (t ++ x) (fun _ hc => nomatch hc) hagain hcut z
    rw [List.append_assoc] at hres
    rw [List.append_assoc]
    exact hres

variable {handler : Handler H}

/-- A segment behind which the message is not complete. -/
theorem onInput_part (h : Mid handler.registry p t) {x : Bytes}
    (hfit : t.length + x.length ≤ p.buffer.maxSize)
    (hagain : (parseNew handler.registry (t ++ x)).result = .Again)
    (hcut : (parseNew handler.registry (t ++ x)).state.2.NotCut) :
    ∃ p', handler.onInput p x = ([], p') ∧ Mid handler.registry p' (t ++ x) ∧
      p'.buffer.maxSize = p.buffer.maxSize := by
  obtain ⟨p', hfeed, hparse, hbytes, hmax, hrest⟩ := h.feed_parse hfit
  refine ⟨{ toWork := (parseNew handler.registry (t ++ x)).state.2
            currentStep := (parseNew handler.registry (t ++ x)).state.1
            buffer := p'.buffer.advanceTo (parseNew handler.registry (t ++ x)).rest },
    ?_, waits hbytes hrest hagain hcut, hmax⟩
  rw [Handler.onInput, hfeed]
  simp only [hparse, hagain]

/-- The segment that completes the message. -/
theorem onInput_whole (h : Mid handler.registry p t) {x : Bytes}
    (hfit : t.length + x.length ≤ p.buffer.maxSize) {k : Nat} {m : Request H} {rest : Bytes}
    (hdone : parseNew handler.registry (t ++ x) = ⟨.Done, (k, ⟨m, {}⟩), rest⟩) :
    handler.onInput p x = (handler.serve m, RequestParser.new p.buffer.maxSize) := by
  obtain ⟨p', hfeed, hparse, hbytes, hmax, hrest⟩ := h.feed_parse hfit
  rw [Handler.onInput, hfeed]
  simp only [hparse, hdone]
  rw [← hmax]
  rfl

end Mid

/-- No piece ends where the decoder of chunks goes wrong, and the last one ends with the
request. -/
structure Wellformed.WellCut {registry : Registry H} (r : Wellformed registry)
    (pieces : List Bytes) : Prop where
  nonempty : ∀ p ∈ pieces, p ≠ []
  flatten : pieces.flatten = r.bytes
  notCut : ∀ i, 0 < i → i < pieces.length → ¬r.Cut (pieces.take i).flatten

/-- The request that parsing the bytes alone gives. -/
def parseAlone (registry : Registry H) (maxSize : Nat) (bytes : Bytes) : Option (Request H) :=
  match (RequestParser.new maxSize).feed bytes with
  | none => none
  | some p =>
    match RequestParser.parse registry p with
    | (.Done, p) => some p.message
    | _ => none

theorem parseAlone_eq {registry : Registry H} {maxSize : Nat} {bytes : Bytes}
    (hfit : bytes.length ≤ maxSize) {k : Nat} {w : Work H RequestLine} {rest : Bytes}
    (hdone : parseNew registry bytes = ⟨.Done, (k, w), rest⟩) :
    parseAlone registry maxSize bytes = some w.message := by
  obtain ⟨p', hfeed, hparse, -⟩ := (Mid.new registry maxSize).feed_parse
    (x := bytes) (by simpa [RequestParser.new, ArrayStreamBuf.new] using hfit)
  rw [List.nil_append, hdone] at hparse
  rw [parseAlone, hfeed]
  simp only [hparse]

section Run

variable (handler : Handler H)

/-- The rest of the pieces of one request. -/
theorem run_pieces (r : Wellformed handler.registry) {m : Request H} {rest : Bytes}
    (hdone : parseNew handler.registry r.bytes = ⟨.Done, (2, ⟨m, {}⟩), rest⟩) :
    ∀ (pieces : List Bytes) (p : ParserBase H RequestLine) (t : Bytes),
      Mid handler.registry p t → pieces ≠ [] → (∀ x ∈ pieces, x ≠ []) →
      t ++ pieces.flatten = r.bytes → r.bytes.length ≤ p.buffer.maxSize →
      (∀ i, 0 < i → i < pieces.length → ¬r.Cut (t ++ (pieces.take i).flatten)) →
      handler.run p pieces = (handler.serve m, RequestParser.new p.buffer.maxSize)
  | [], _, _, _, hpos, _, _, _, _ => absurd rfl hpos
  | [x], p, t, h, _, _, hbytes, hfit, _ => by
    simp only [List.flatten_cons, List.flatten_nil, List.append_nil] at hbytes
    have hlen : t.length + x.length ≤ p.buffer.maxSize := by
      rw [← List.length_append, hbytes]
      exact hfit
    rw [Handler.run, h.onInput_whole hlen (by rw [hbytes]; exact hdone)]
    simp only [Handler.run, List.append_nil]
  | x :: y :: ys, p, t, h, _, hne, hbytes, hfit, hcut => by
    have hpre : t ++ x <+: r.bytes := ⟨(y :: ys).flatten, by
      rw [List.append_assoc]; exact hbytes⟩
    have hlen : t.length + x.length ≤ p.buffer.maxSize := by
      rw [← List.length_append]
      exact hpre.length_le.trans hfit
    have hproper : t ++ x ≠ r.bytes := by
      intro e
      rw [← e, List.flatten_cons, ← List.append_assoc] at hbytes
      have hnil : (y :: ys).flatten = [] := List.append_right_eq_self.mp hbytes
      rw [List.flatten_cons, List.append_eq_nil_iff] at hnil
      exact hne y (by simp) hnil.1
    obtain ⟨hagain, hnot⟩ := r.part hpre hproper (by simpa using hcut 1 (by simp) (by simp))
    obtain ⟨p', hstep, hmid, hmax⟩ := h.onInput_part hlen hagain hnot
    have ih := run_pieces r hdone (y :: ys) p' (t ++ x) hmid (by simp)
      (fun z hz => hne z (List.mem_cons_of_mem x hz))
      (by rw [List.append_assoc]; exact hbytes)
      (by rw [hmax]; exact hfit)
      (fun i _ hi => by
        have := hcut (i + 1) (by omega) (by simpa using hi)
        rwa [List.take_succ_cons, List.flatten_cons, ← List.append_assoc] at this)
    rw [Handler.run, hstep]
    simp only [List.nil_append, ih, hmax]

/-- One request. -/
theorem run_request (r : Wellformed handler.registry) {pieces : List Bytes}
    (hwell : r.WellCut pieces) {maxSize : Nat} (hfit : r.bytes.length ≤ maxSize) :
    ∃ m, parseAlone handler.registry maxSize r.bytes = some m ∧
      handler.run (RequestParser.new maxSize) pieces =
        (handler.serve m, RequestParser.new maxSize) := by
  obtain ⟨m, rest, hdone⟩ := r.whole
  refine ⟨m, parseAlone_eq hfit hdone, ?_⟩
  have hpos : pieces ≠ [] := by
    rintro rfl
    -- a parser that has received nothing is not done
    have hnil : parseNew handler.registry [] = ⟨.Done, (2, ⟨m, {}⟩), rest⟩ := by
      rw [← hdone, ← hwell.flatten]
      rfl
    cases hnil
  exact run_pieces handler r hdone pieces (RequestParser.new maxSize) [] (Mid.new _ _) hpos
    hwell.nonempty hwell.flatten hfit hwell.notCut

end Run

/-- The segments are those of the requests, one after the other, each cut well. -/
inductive Aligned {registry : Registry H} : List (Wellformed registry) → List Bytes → Prop
  | nil : Aligned [] []
  | cons {r : Wellformed registry} {pieces : List Bytes} {rs : List (Wellformed registry)}
    {segments : List Bytes} :
    r.WellCut pieces → Aligned rs segments → Aligned (r :: rs) (pieces ++ segments)

/-- `onRequest` is called once for each of the requests, in their order, with the request that
parsing its bytes alone gives. -/
def ServesAll (handler : Handler H) (maxSize : Nat) (rs : List (Wellformed handler.registry))
    (segments : List Bytes) : Prop :=
  (requests (handler.run (RequestParser.new maxSize) segments).1).map some =
    rs.map fun r => parseAlone handler.registry maxSize r.bytes

/-- **Framing.** Requests that fit into the buffer are all served as they are sent, when no
segment runs over the end of a request and none ends where the decoder of chunks goes
wrong. -/
theorem framing (handler : Handler H) (maxSize : Nat)
    (rs : List (Wellformed handler.registry)) (hfit : ∀ r ∈ rs, r.bytes.length ≤ maxSize)
    (segments : List Bytes) (halign : Aligned rs segments) :
    ServesAll handler maxSize rs segments := by
  unfold ServesAll
  induction halign with
  | nil => rfl
  | cons hwell _ ih =>
    rename_i r pieces rs segments _
    obtain ⟨m, halone, hrun⟩ := run_request handler r hwell (hfit r List.mem_cons_self)
    have ih := ih fun r' hr' => hfit r' (List.mem_cons_of_mem r hr')
    rw [Handler.run_append, hrun]
    simp only [requests_append, requests_serve, List.map_cons, ih, halone,
      List.cons_append, List.nil_append]

/-! ### Two requests -/

def getRequest : Wellformed Handler.quiet.registry where
  head := lit "GET / HTTP/1.1\r\n\r\n"
  message := { own := { method_ := .Get, resource_ := lit "/" } }
  body := .none
  accepted := rfl
  declared := ⟨rfl, rfl⟩

def postRequest : Wellformed Handler.quiet.registry where
  head := lit "POST / HTTP/1.1\r\nContent-Length: 5\r\n\r\n"
  message :=
    { headers_ := ⟨[(lit "content-length", .ContentLength 5)],
        [(lit "content-length", ⟨lit "Content-Length", lit "5"⟩)]⟩
      own := { method_ := .Post, resource_ := lit "/" } }
  body := .length (lit "hello")
  accepted := rfl
  declared := ⟨5, rfl, rfl, rfl⟩

theorem getRequest_postRequest : ServesAll Handler.quiet 4096 [getRequest, postRequest]
    ([lit "GET / HT", lit "TP/1.1\r\n\r\n"] ++
      ([lit "POST / HTTP/1.1\r\nContent-Length: 5\r\n\r\nhe", lit "llo"] ++ [])) :=
  framing Handler.quiet 4096 _ (by decide) _
    (.cons ⟨by decide, by decide, fun _ _ _ ⟨_, _, h⟩ => h⟩
      (.cons ⟨by decide, by decide, fun _ _ _ ⟨_, _, h⟩ => h⟩ .nil))

/-- Of two requests in one segment the second is lost. -/
theorem getRequest_pipelined :
    [getRequest.bytes ++ getRequest.bytes].flatten =
        ([getRequest, getRequest].map Wellformed.bytes).flatten ∧
      ¬ServesAll Handler.quiet 4096 [getRequest, getRequest] [getRequest.bytes ++ getRequest.bytes] := by
  refine ⟨by decide, fun h => ?_⟩
  have hlen := congrArg List.length h
  have hone : (requests (Handler.quiet.run (RequestParser.new 4096)
      [getRequest.bytes ++ getRequest.bytes]).1).length = 1 := by decide
  rw [List.length_map, List.length_map, hone] at hlen
  cases hlen

end Pistache.Http
