import Pistache.Http.Parser

/-!
# Reusing a parser

Sequences of `feed` and `parse` calls on a parser, and what a caller sees of them: the result
of each call and the message after it.  `reset` restores the buffer and the current step, and
for a request the message; the private fields of the body step stay.

* `Parser.Origin` — where the message and the body step of a parser come from.
* `reuse` — when a parser that has been reset cannot be told from a new one.
-/

set_option autoImplicit false

namespace Pistache.Http

open Resumable

variable {H L : Type}

/-! ## Calls -/

inductive Call where
  | feed (data : Bytes)
  | parse
  deriving DecidableEq

/-- What a call returns or throws. -/
inductive Reply where
  | fed (accepted : Bool)
  | parsed (state : State)
  deriving DecidableEq

namespace ParserBase

variable (registry : Registry H) (line : Step (Derived H L))

def call (p : ParserBase H L) : Call → Reply × ParserBase H L
  | .feed data =>
    match p.feed data with
    | some p => (.fed true, p)
    | none => (.fed false, p)
  | .parse => ((p.parse registry line).1 |> .parsed, (p.parse registry line).2)

def after (p : ParserBase H L) : List Call → ParserBase H L
  | [] => p
  | c :: cs => after (p.call registry line c).2 cs

/-- The reply to each call and the message after it. -/
def observe (p : ParserBase H L) : List Call → List (Reply × Derived H L)
  | [] => []
  | c :: cs =>
    let (reply, p) := p.call registry line c
    (reply, p.message) :: observe p cs

/-- What a call keeps holds after all of them. -/
theorem after_induction (inv : ParserBase H L → Prop)
    (hstep : ∀ p c, inv p → inv (p.call registry line c).2) :
    ∀ (cs : List Call) (p : ParserBase H L), inv p → inv (p.after registry line cs)
  | [], _, h => h
  | c :: cs, p, h => after_induction inv hstep cs _ (hstep p c h)

theorem call_maxSize (p : ParserBase H L) (c : Call) :
    (p.call registry line c).2.buffer.maxSize = p.buffer.maxSize := by
  cases c with
  | feed data =>
    simp only [call, feed]
    cases h : p.buffer.feed data with
    | none => rfl
    | some b =>
      obtain ⟨-, rfl⟩ := ArrayStreamBuf.feed_eq_some.mp h
      rfl
  | parse => rfl

theorem after_maxSize (cs : List Call) (p : ParserBase H L) :
    (p.after registry line cs).buffer.maxSize = p.buffer.maxSize :=
  after_induction registry line (fun q => q.buffer.maxSize = p.buffer.maxSize)
    (fun q c h => (call_maxSize registry line q c).trans h) cs p rfl

end ParserBase

/-! ## How long a head is

A head that declares a body has a shortest form: 27 bytes for a length that is not zero, 31
bytes for chunks.  A buffer in which a body has been read is at least as large. -/

namespace RequestLineStep

theorem apply_headers (r : Request H) (xs : Bytes) : (apply r xs).state.headers_ = r.headers_ := by
  obtain ⟨is, res, rest, h, -, -⟩ := parts_emitting (H := H) xs
  have hall : ∀ (is : List Update) (r : Request H),
      (Replay.applyAll Update.apply is r).headers_ = r.headers_ := by
    intro is
    induction is with
    | nil => intro r; rfl
    | cons i is ih =>
      intro r
      rw [Replay.applyAll_cons, ih]
      cases i <;> rfl
  unfold apply revert
  dsimp only
  rw [h r]
  split <;> exact hall is r

theorem method_length {r : Request H} {xs : Bytes} (h : (method r xs).result = .Next) :
    (method r xs).rest.length + 4 ≤ xs.length := by
  unfold method at h ⊢
  cases hm : match_until [SP] xs with
  | none => simp [hm] at h
  | some p =>
    obtain ⟨tok, rest⟩ := p
    obtain ⟨hxs, c, rest', rfl, hc⟩ := match_until_some hm
    obtain rfl : c = SP := by simpa using hc
    simp only [hm] at h
    cases hl : httpMethods.lookup tok with
    | none => simp [hl] at h
    | some it =>
      have htok : 3 ≤ tok.length := by
        have hall : ∀ x ∈ httpMethods, 3 ≤ x.1.length := by decide
        obtain ⟨l, r, he, -⟩ := List.lookup_eq_some_iff.mp hl
        exact hall (tok, it) (by rw [he]; simp)
      have := congrArg List.length hxs
      simp only [List.length_append, List.length_cons] at this
      simp [hl]
      omega

theorem version_length {r : Request H} {xs : Bytes} (h : (version r xs).result = .Next) :
    (version r xs).rest.length + 3 ≤ xs.length := by
  unfold version at h ⊢
  cases xs with
  | nil => cases h
  | cons x xs =>
    simp only [List.drop_succ_cons, List.drop_zero] at h ⊢
    cases hu : untilEol xs with
    | none => simp [hu] at h
    | some p =>
      obtain ⟨tok, rest⟩ := p
      obtain ⟨hxs, rest', rfl⟩ := untilEol_some hu
      have := congrArg List.length hxs
      simp only [List.length_append, List.length_cons] at this
      simp only [hu] at h
      dsimp only
      repeat' split
      all_goals simp_all

theorem apply_length {r : Request H} {xs : Bytes} (h : (apply r xs).result = .Next) :
    (apply r xs).rest.length + 7 ≤ xs.length := by
  unfold apply revert at h ⊢
  dsimp only at h ⊢
  split at h
  · rename_i hn
    rw [if_pos hn]
    obtain ⟨h₁, e₁⟩ := andThen_next _ hn
    obtain ⟨h₂, e₂⟩ := andThen_next _ h₁
    obtain ⟨h₃, e₃⟩ := andThen_next _ h₂
    have hm := method_length h₃
    have hr := (resource_forward (method r xs).state (method r xs).rest).length_le
    rw [← e₃] at hr
    have hq := (query_forward (andThen State.Next method resource r xs).state
      (andThen State.Next method resource r xs).rest).length_le
    rw [← e₂] at hq
    rw [e₁] at hn ⊢
    have hv := version_length hn
    omega
  · rename_i hn
    exact absurd h hn

end RequestLineStep

set_option maxRecDepth 8000 in
theorem encodingFromString_chunked {value : Bytes}
    (h : Header.encodingFromString value = .Chunked) : 2 ≤ value.length := by
  match value with
  | [] => cases h
  | [c] =>
    -- a single letter stands for one of the encodings in front of `chunked`
    exfalso
    have hall : ∀ n : Fin 256, Header.encodingFromString [UInt8.ofNat n.val] ≠ .Chunked := by
      decide
    exact hall ⟨c.toNat, c.toNat_lt⟩ (by simpa using h)
  | _ :: _ :: _ => simp

theorem contentLength_parse_ne {value : Bytes} {v : UInt64}
    (h : Header.ContentLength.parse value = .ok v) (hv : v ≠ 0) : value ≠ [] := by
  rintro rfl
  have h0 : Header.ContentLength.parse [] = .ok 0 := rfl
  rw [h0] at h
  exact hv (Except.ok.inj h).symm

namespace HeadersStep

variable (registry : Registry H)

theorem typedEntry_parsed {line : Bytes × Bytes} {key : Bytes} {h : TypedHeader H}
    (he : typedEntry registry line = some (key, h)) :
    key = line.1.map tolower ∧ registry.parse line.1 line.2 = some (.ok h) := by
  unfold typedEntry at he
  split at he
  · split at he
    · rename_i header ht
      obtain ⟨rfl, rfl⟩ := Prod.mk.inj (Option.some.inj he)
      refine ⟨rfl, ?_⟩
      unfold typed at ht
      split at ht
      · cases ht
      · exact ht
    · cases he
  · cases he

/-- What a header line makes of the entry of a key. -/
theorem update_lookup (line : Bytes × Bytes) (m : Message H) (key : Bytes) {h : TypedHeader H}
    (hl : (update registry line m).headers_.headers.lookup key = some h) :
    m.headers_.headers.lookup key = some h ∨
      (line.1.map tolower = key ∧ registry.parse line.1 line.2 = some (.ok h)) := by
  simp only [update] at hl
  cases he : typedEntry registry line with
  | none => exact .inl (by simpa [he] using hl)
  | some e =>
    obtain ⟨key', h'⟩ := e
    obtain ⟨hkey, hparse⟩ := typedEntry_parsed registry he
    simp only [he, Option.elim_some, Replay.lookup_insertNew] at hl
    cases hold : m.headers_.headers.lookup key with
    | some h'' => exact .inl (by simpa [hold] using hl)
    | none =>
      simp only [hold, Option.none_or] at hl
      split at hl
      · rename_i heq
        obtain rfl := Option.some.inj hl
        exact .inr ⟨by rw [← hkey]; exact (eq_of_beq heq).symm, hparse⟩
      · cases hl

theorem update_contentLength (line : Bytes × Bytes) (m : Message H) {v : UInt64}
    (h : (update registry line m).headers_.contentLength = some v) :
    m.headers_.contentLength = some v ∨
      (line.1.map tolower = lit "content-length" ∧ Header.ContentLength.parse line.2 = .ok v) := by
  unfold Header.Collection.contentLength at h ⊢
  split at h
  · rename_i w hl
    obtain rfl := Option.some.inj h
    rcases update_lookup registry line m _ hl with hl | ⟨hname, hp⟩
    · exact .inl (by rw [hl])
    · refine .inr ⟨hname, ?_⟩
      simp only [Registry.parse, hname, if_true, Option.some.injEq] at hp
      cases hc : Header.ContentLength.parse line.2 with
      | error e => simp [hc, Except.map] at hp
      | ok w' => simpa [hc, Except.map] using hp
  · cases h

theorem update_transferEncoding (line : Bytes × Bytes) (m : Message H) {e : Header.Encoding}
    (h : (update registry line m).headers_.transferEncoding = some e) :
    m.headers_.transferEncoding = some e ∨
      (line.1.map tolower = lit "transfer-encoding" ∧ Header.encodingFromString line.2 = e) := by
  unfold Header.Collection.transferEncoding at h ⊢
  split at h
  · rename_i w hl
    obtain rfl := Option.some.inj h
    rcases update_lookup registry line m _ hl with hl | ⟨hname, hp⟩
    · exact .inl (by rw [hl])
    · refine .inr ⟨hname, ?_⟩
      simp only [Registry.parse, hname, show lit "transfer-encoding" ≠ lit "content-length" by decide,
        if_false, if_true, Option.some.injEq, Except.ok.injEq, TypedHeader.TransferEncoding.injEq]
        at hp
      exact hp
  · cases h

/-- The bytes of `xs` up to `rest` hold what the headers declare. -/
def Declares (headers : Header.Collection H) (xs rest : Bytes) (n : Nat) : Prop :=
  (∀ v, headers.contentLength = some v → v ≠ 0 → rest.length + 18 + n ≤ xs.length) ∧
  (headers.transferEncoding = some .Chunked → rest.length + 22 + n ≤ xs.length)

/-- A header block read from the start takes as many bytes as its headers need. -/
theorem apply_declares {m : Derived H L} (hm : m.headers_ = .empty) {xs : Bytes}
    (h : (apply registry m xs).result = .Next) :
    Declares (apply registry m xs).state.headers_ xs (apply registry m xs).rest 2 := by
  have hrun : Loop.run (body registry (L := L)) (fun message cursor => ⟨.Again, message, cursor⟩)
      m xs = apply registry m xs := by
    unfold apply revert at h ⊢
    dsimp only at h ⊢
    split
    · rfl
    · rename_i hne
      rw [if_neg hne] at h
      exact absurd h hne
  rw [← hrun] at h ⊢
  refine Loop.run_induction (body_shrinks registry (L := L)) _
    (fun m' ys => ys.length ≤ xs.length ∧ Declares m'.headers_ xs ys 0)
    (fun o => o.result = .Next → Declares o.state.headers_ xs o.rest 2) ?_ ?_ m xs ?_ h
  · rintro m' ys o ⟨hle, hcl, hte⟩ hb hr
    unfold body at hb
    split at hb
    · rename_i heol
      obtain ⟨rest, rfl⟩ := eol_iff.mp heol
      obtain rfl := Sum.inl.inj hb
      simp only [List.length_cons, Declares, List.drop_succ_cons, List.drop_zero] at hcl hte ⊢
      exact ⟨fun v hv hne => by have := hcl v hv hne; omega, fun hc => by have := hte hc; omega⟩
    · split at hb
      · obtain rfl := Sum.inl.inj hb
        cases hr
      · split at hb
        · cases hb
        · obtain rfl := Sum.inl.inj hb
          cases hr
  · rintro m' ys m'' ys' ⟨hle, hcl, hte⟩ hb
    unfold body at hb
    split at hb
    · cases hb
    · split at hb
      · cases hb
      · rename_i name value rest hh
        rw [addHeader_eq] at hb
        split at hb
        · rename_i m₁ he
          obtain ⟨hm₁, -⟩ := Prod.mk.inj he
          obtain ⟨rfl, rfl⟩ := Prod.mk.inj (Sum.inr.inj hb)
          subst hm₁
          obtain ⟨spaces, hys⟩ := header_some hh
          have hlen := congrArg List.length hys
          simp only [List.length_append, List.length_cons] at hlen
          refine ⟨by omega, fun v hv hne => ?_, fun hc => ?_⟩
          · rcases update_contentLength registry (name, value) m'.toMessage hv with h' | ⟨hn, hp⟩
            · have := hcl v h' hne
              omega
            · have hname : name.length = 14 := by simpa [lit] using congrArg List.length hn
              have hval := List.length_pos_iff.mpr (contentLength_parse_ne hp hne)
              simp only at hval
              omega
          · rcases update_transferEncoding registry (name, value) m'.toMessage hc with h' | ⟨hn, hp⟩
            · have := hte h'
              omega
            · have hname : name.length = 17 := by simpa [lit] using congrArg List.length hn
              have hval := encodingFromString_chunked hp
              simp only at hval
              omega
        · cases hb
  · refine ⟨Nat.le_refl _, fun v hv _ => ?_, fun hc => ?_⟩
    · rw [hm] at hv
      cases hv
    · rw [hm] at hc
      cases hc

end HeadersStep

/-! ## Where the fields of the body step come from -/

theorem Chunk.sizeLine_length {xs rest : Bytes} {n : Nat}
    (h : Chunk.sizeLine xs = some (.ok n, rest)) : 3 ≤ xs.length := by
  unfold Chunk.sizeLine at h
  split at h
  · cases h
  · rename_i text cursor hu
    obtain ⟨hxs, rest', rfl⟩ := untilEol_some hu
    cases text with
    | nil => simp [from_chars] at h
    | cons c text => simp [hxs]; omega

theorem BodyStep.parseChunks_chunk {c : Chunk} {m : Message H} {xs : Bytes}
    (h : (BodyStep.parseChunks (c, m) xs).state.1 ≠ none) : c ≠ none ∨ 3 ≤ xs.length := by
  refine Loop.run_induction BodyStep.chunkBody_shrinks (fun s cursor => ⟨.Again, s, cursor⟩)
    (fun s ys => (s.1 ≠ none → c ≠ none) ∧ ys.length ≤ xs.length)
    (fun o => o.state.1 ≠ none → c ≠ none ∨ 3 ≤ xs.length) ?_ ?_ (c, m) xs
    ⟨id, Nat.le_refl _⟩ h
  · rintro ⟨c', m'⟩ ys o ⟨hc, hle⟩ hb hne
    unfold BodyStep.chunkBody BodyStep.ofChunk at hb
    dsimp only at hb
    split at hb
    · obtain rfl := Sum.inl.inj hb
      exact absurd rfl hne
    · obtain rfl := Sum.inl.inj hb
      cases c' with
      | some c' => exact .inl (hc (by simp))
      | none =>
        refine .inr ?_
        cases hs : Chunk.sizeLine ys with
        | none => simp [Chunk.parse, hs] at hne
        | some p =>
          obtain ⟨r, rest⟩ := p
          cases r with
          | error e => simp [Chunk.parse, hs] at hne
          | ok n => exact (Chunk.sizeLine_length hs).trans hle
    · split at hb
      · obtain rfl := Sum.inl.inj hb
        exact absurd rfl hne
      · cases hb
    · obtain rfl := Sum.inl.inj hb
      exact absurd rfl hne
  · rintro ⟨c', m'⟩ ys s' ys' ⟨-, hle⟩ hb
    have hlt := BodyStep.chunkBody_shrinks _ _ _ _ hb
    unfold BodyStep.chunkBody BodyStep.ofChunk at hb
    repeat' split at hb
    all_goals first | cases hb; exact ⟨fun hne => absurd rfl hne, by omega⟩ | cases hb

/-- Of `total` bytes received those behind the cursor are `xs`: what the current step, the
message and the body step say about the bytes in front. -/
structure Origin (registry : Registry H) (total k : Nat) (w : Work H RequestLine) (xs : Bytes) :
    Prop where
  step_le : k ≤ 2
  length_le : xs.length ≤ total
  fresh : k < 2 → w.bodyStep = {}
  line : k = 0 → w.message.headers_ = .empty
  headers : k = 1 → xs.length + 7 ≤ total ∧ ∃ m : Request H, m.headers_ = .empty ∧
    ∀ z, HeadersStep.apply registry w.message (xs ++ z) = HeadersStep.apply registry m (xs ++ z)
  body : k = 2 →
    (∀ v, w.message.headers_.contentLength = some v → v ≠ 0 → xs.length + 27 ≤ total) ∧
    (w.message.headers_.transferEncoding = some .Chunked → xs.length + 31 ≤ total)
  bytesRead : w.bodyStep.bytesRead ≠ 0 → 28 ≤ total
  chunk : w.bodyStep.chunk ≠ none → 34 ≤ total

namespace Origin

variable {registry : Registry H} {total k : Nat} {w : Work H RequestLine} {xs : Bytes}

theorem line_step (h : Origin registry total 0 w xs) :
    Origin registry total
      (if (RequestLineStep.apply w.message xs).result = .Next then 1 else 0)
      (w.setMessage (RequestLineStep.apply w.message xs).state)
      (RequestLineStep.apply w.message xs).rest := by
  have hlen := (RequestLineStep.forward w.message xs).length_le
  have hempty : (RequestLineStep.apply w.message xs).state.headers_ = .empty :=
    (RequestLineStep.apply_headers w.message xs).trans (h.line rfl)
  have htotal := h.length_le
  have hbody := h.fresh (by omega)
  by_cases hr : (RequestLineStep.apply w.message xs).result = .Next
  · rw [if_pos hr]
    have := RequestLineStep.apply_length hr
    exact
      { step_le := by omega
        length_le := by omega
        fresh := fun _ => hbody
        line := fun h0 => by omega
        headers := fun _ => ⟨by omega, _, hempty, fun _ => rfl⟩
        body := fun h2 => by omega
        bytesRead := h.bytesRead
        chunk := h.chunk }
  · rw [if_neg hr]
    exact
      { step_le := by omega
        length_le := by omega
        fresh := fun _ => hbody
        line := fun _ => hempty
        headers := fun h1 => by omega
        body := fun h2 => by omega
        bytesRead := h.bytesRead
        chunk := h.chunk }

theorem headers_step (h : Origin registry total 1 w xs) :
    Origin registry total
      (if (HeadersStep.apply registry w.message xs).result = .Next then 2 else 1)
      (w.setMessage (HeadersStep.apply registry w.message xs).state)
      (HeadersStep.apply registry w.message xs).rest := by
  have hlen := (HeadersStep.forward registry w.message xs).length_le
  obtain ⟨hline, m, hm, hsame⟩ := h.headers rfl
  have hbody := h.fresh (by omega)
  by_cases hr : (HeadersStep.apply registry w.message xs).result = .Next
  · rw [if_pos hr]
    have h₀ : HeadersStep.apply registry w.message xs = HeadersStep.apply registry m xs := by
      simpa using hsame []
    have hdecl := HeadersStep.apply_declares registry hm (h₀ ▸ hr)
    rw [← h₀] at hdecl
    exact
      { step_le := by omega
        length_le := by omega
        fresh := fun h2 => by omega
        line := fun h0 => by omega
        headers := fun h1 => by omega
        body := fun _ => ⟨fun v hv hne => by have := hdecl.1 v hv hne; omega,
          fun hc => by have := hdecl.2 hc; omega⟩
        bytesRead := h.bytesRead
        chunk := h.chunk }
  · rw [if_neg hr]
    have hrest : (HeadersStep.apply registry w.message xs).rest = xs := revert_rest _ hr
    exact
      { step_le := by omega
        length_le := by omega
        fresh := fun _ => hbody
        line := fun h0 => by omega
        headers := fun _ => by
          rw [hrest]
          exact ⟨hline, m, hm, fun z => (HeadersStep.retries registry hr z).trans (hsame z)⟩
        body := fun h2 => by omega
        bytesRead := h.bytesRead
        chunk := h.chunk }

theorem body_step (h : Origin registry total 2 w xs) :
    Origin registry total 2 (w.setBody (BodyStep.apply w.body xs).state)
      (BodyStep.apply w.body xs).rest := by
  have hlen := (BodyStep.forward w.body xs).length_le
  have hheaders : (BodyStep.apply w.body xs).state.2.headers_ = w.message.headers_ :=
    BodyStep.apply_headers w.body xs
  obtain ⟨hcl, hte⟩ := h.body rfl
  have htotal := h.length_le
  refine
    { step_le := by omega
      length_le := by omega
      fresh := fun h2 => by omega
      line := fun h0 => by omega
      headers := fun h1 => by omega
      body := fun _ => ?_
      bytesRead := fun hne => ?_
      chunk := fun hne => ?_ }
  · simp only [Work.setBody_message, hheaders]
    exact ⟨fun v hv hne => by have := hcl v hv hne; omega, fun hc => by have := hte hc; omega⟩
  · by_cases hold : w.bodyStep.bytesRead = 0
    · simp only [Work.setBody_bodyStep, BodyStep.apply] at hne
      split at hne
      · exact absurd hold hne
      · rename_i v hv _
        rw [show w.body = (w.bodyStep, w.message.toMessage) from rfl,
          BodyStep.parseContentLength_eq] at hne
        split at hne
        · rename_i hlt
          simp only [hold, UInt64.zero_add] at hne
          have hpos : 0 < xs.length := by
            rw [Nat.pos_iff_ne_zero]
            intro h0
            rw [h0] at hne
            exact hne rfl
          have hv0 : v ≠ 0 := by
            rintro rfl
            rw [BodyStep.missing, hold] at hlt
            simp at hlt
          have := hcl v hv hv0
          omega
        · exact absurd rfl hne
      · unfold BodyStep.parseTransferEncoding at hne
        split at hne
        · exact absurd hold hne
        · exact absurd hold hne
      · exact absurd hold hne
    · exact h.bytesRead hold
  · by_cases hold : w.bodyStep.chunk = none
    · simp only [Work.setBody_bodyStep, BodyStep.apply] at hne
      split at hne
      · exact absurd hold hne
      · rw [show w.body = (w.bodyStep, w.message.toMessage) from rfl,
          BodyStep.parseContentLength_eq] at hne
        split at hne <;> exact absurd hold hne
      · rename_i te _ hv
        unfold BodyStep.parseTransferEncoding at hne
        split at hne
        · rename_i hchunked
          rcases BodyStep.parseChunks_chunk hne with hc | hc
          · exact absurd hold hc
          · have := hte (by rw [← hchunked]; exact hv)
            omega
        · exact absurd hold hne
      · exact absurd hold hne
    · exact h.chunk hold

theorem feed (h : Origin registry total k w xs) (z : Bytes) :
    Origin registry (total + z.length) k w (xs ++ z) where
  step_le := h.step_le
  length_le := by have := h.length_le; rw [List.length_append]; omega
  fresh := h.fresh
  line := h.line
  headers h1 := by
    obtain ⟨hlen, m, hm, hsame⟩ := h.headers h1
    refine ⟨by rw [List.length_append]; omega, m, hm, fun z' => ?_⟩
    rw [List.append_assoc]
    exact hsame (z ++ z')
  body h2 := by
    obtain ⟨hcl, hte⟩ := h.body h2
    rw [List.length_append]
    exact ⟨fun v hv hne => by have := hcl v hv hne; omega, fun hc => by have := hte hc; omega⟩
  bytesRead hne := by have := h.bytesRead hne; omega
  chunk hne := by have := h.chunk hne; omega

/-- A call of `parse` keeps the origin. -/
theorem parse (h : Origin registry total k w xs) :
    Origin registry total (Work.parse registry RequestLineStep.apply (k, w) xs).state.1
      (Work.parse registry RequestLineStep.apply (k, w) xs).state.2
      (Work.parse registry RequestLineStep.apply (k, w) xs).rest := by
  refine runChain_induction _ (Origin registry total) ?_ k w xs h
  intro j f w xs hf hw
  match j, hf with
  | 0, hf =>
    obtain rfl := Option.some.inj hf
    exact hw.line_step
  | 1, hf =>
    obtain rfl := Option.some.inj hf
    exact hw.headers_step
  | 2, hf =>
    obtain rfl := Option.some.inj hf
    have hnever := Work.BodyStep_never_next w.body xs
    have hbody := hw.body_step
    change Origin registry total (if (BodyStep.apply w.body xs).result = .Next then 3 else 2) _ _
    rw [if_neg hnever]
    exact hbody
  | _ + 3, hf => simp [Work.allSteps] at hf

end Origin

/-! ## Request parsers -/

namespace RequestParser

variable (registry : Registry H)

def after (p : ParserBase H RequestLine) : List Call → ParserBase H RequestLine :=
  ParserBase.after registry RequestLineStep.apply p

def observe (p : ParserBase H RequestLine) : List Call → List (Reply × Request H) :=
  ParserBase.observe registry RequestLineStep.apply p

/-- What holds of a request parser after any calls. -/
structure Inv (p : ParserBase H RequestLine) : Prop where
  origin : Origin registry p.buffer.bytes.length p.currentStep p.toWork p.buffer.unread
  fits : p.buffer.bytes.length ≤ p.buffer.maxSize

theorem inv_new (maxSize : Nat) : Inv registry (new maxSize) where
  origin :=
    { step_le := by simp [new]
      length_le := Nat.le_refl _
      fresh := fun _ => rfl
      line := fun _ => rfl
      headers := fun h => by simp [new] at h
      body := fun h => by simp [new] at h
      bytesRead := fun h => absurd rfl h
      chunk := fun h => absurd rfl h }
  fits := Nat.zero_le _

theorem inv_call (p : ParserBase H RequestLine) (c : Call) (h : Inv registry p) :
    Inv registry (p.call registry RequestLineStep.apply c).2 := by
  cases c with
  | feed data =>
    simp only [ParserBase.call, ParserBase.feed]
    cases hf : p.buffer.feed data with
    | none => exact h
    | some b =>
      obtain ⟨hle, rfl⟩ := ArrayStreamBuf.feed_eq_some.mp hf
      have hlen : (p.buffer.read ++ (p.buffer.unread ++ data)).length =
          p.buffer.bytes.length + data.length := by
        rw [← List.append_assoc, List.length_append]
        rfl
      exact
        { origin := by
            simp only [Option.map_some, ArrayStreamBuf.bytes, hlen]
            exact h.origin.feed data
          fits := by
            simp only [Option.map_some, ArrayStreamBuf.bytes, hlen]
            exact hle }
  | parse =>
    have hbytes : (p.parse registry RequestLineStep.apply).2.buffer.bytes = p.buffer.bytes :=
      ArrayStreamBuf.advanceTo_bytes _ (Work.forward registry RequestLineStep.forward _ _)
    exact
      { origin := by
          change Origin registry (p.parse registry RequestLineStep.apply).2.buffer.bytes.length _ _ _
          rw [hbytes]
          exact h.origin.parse
        fits := by
          change (p.parse registry RequestLineStep.apply).2.buffer.bytes.length ≤ _
          rw [hbytes]
          exact h.fits }

theorem inv_after (maxSize : Nat) (history : List Call) :
    Inv registry (after registry (new maxSize) history) :=
  ParserBase.after_induction registry _ (Inv registry) (inv_call registry) history _ (inv_new registry maxSize)

/-- `GET` with a body of one byte; the shortest request with a body of declared length. -/
def lengthProbe : Bytes := lit "GET  \r\nContent-Length:1\r\n\r\nx"

/-- The shortest request with a chunked body: the encoding is cut to `ch`. -/
def chunkProbe : Bytes := lit "GET  \r\nTransfer-Encoding:ch\r\n\r\n0\r\n"

/-- The message behind the head of a probe. -/
def probed (header : Bytes × TypedHeader H) (raw : Bytes × Raw) : Request H :=
  { version_ := .Http10, headers_ := ⟨[header], [raw]⟩, own := { method_ := .Get } }

theorem parse_probe {step : BodyStep} {probe body : Bytes} {m₁ m : Request H} {rest : Bytes}
    (hline : RequestLineStep.apply Request.new probe = ⟨.Next, m₁, rest⟩)
    (hheaders : HeadersStep.apply registry m₁ rest = ⟨.Next, m, body⟩) (maxSize : Nat)
    (hfit : probe.length ≤ maxSize) :
    observe registry { (new maxSize : ParserBase H RequestLine) with bodyStep := step }
        [.feed probe, .parse] =
      [(.fed true, Request.new),
        (.parsed (BodyStep.apply (step, m.toMessage) body).result,
          { m with toMessage := (BodyStep.apply (step, m.toMessage) body).state.2 })] := by
  have hfeed : (ArrayStreamBuf.new maxSize).feed probe = some ⟨[], probe, maxSize⟩ :=
    ArrayStreamBuf.feed_eq_some.mpr ⟨by simpa [ArrayStreamBuf.new, ArrayStreamBuf.bytes], rfl⟩
  have hnever := Work.BodyStep_never_next (step, m.toMessage) body
  simp [observe, ParserBase.observe, ParserBase.call, ParserBase.feed, hfeed, ParserBase.parse,
    ParserBase.outcome, Work.parse, runChain, Work.allSteps, chain, lift, new, hline, hheaders,
    Work.setMessage, Work.body, hnever, Work.setBody]

/-- The message behind the head of `lengthProbe`. -/
def lengthProbed : Request H :=
  probed (lit "content-length", .ContentLength 1)
    (lit "content-length", ⟨lit "Content-Length", lit "1"⟩)

/-- The message behind the head of `chunkProbe`. -/
def chunkProbed : Request H :=
  probed (lit "transfer-encoding", .TransferEncoding .Chunked)
    (lit "transfer-encoding", ⟨lit "Transfer-Encoding", lit "ch"⟩)

theorem observe_lengthProbe (step : BodyStep) {maxSize : Nat} (h : 28 ≤ maxSize) :
    observe registry { (new maxSize : ParserBase H RequestLine) with bodyStep := step }
        [.feed lengthProbe, .parse] =
      [(.fed true, Request.new),
        (.parsed (BodyStep.apply (step, (lengthProbed : Request H).toMessage) (lit "x")).result,
          { (lengthProbed : Request H) with
            toMessage :=
              (BodyStep.apply (step, (lengthProbed : Request H).toMessage) (lit "x")).state.2 })] := by
  have hline : RequestLineStep.apply (Request.new : Request H) lengthProbe =
      ⟨.Next, { version_ := .Http10, own := { method_ := .Get } },
        lit "Content-Length:1\r\n\r\nx"⟩ := rfl
  exact parse_probe registry hline rfl maxSize h

theorem observe_chunkProbe (step : BodyStep) {maxSize : Nat} (h : 34 ≤ maxSize) :
    observe registry { (new maxSize : ParserBase H RequestLine) with bodyStep := step }
        [.feed chunkProbe, .parse] =
      [(.fed true, Request.new),
        (.parsed (BodyStep.apply (step, (chunkProbed : Request H).toMessage) (lit "0\r\n")).result,
          { (chunkProbed : Request H) with
            toMessage :=
              (BodyStep.apply (step, (chunkProbed : Request H).toMessage) (lit "0\r\n")).state.2 })] := by
  have hline : RequestLineStep.apply (Request.new : Request H) chunkProbe =
      ⟨.Next, { version_ := .Http10, own := { method_ := .Get } },
        lit "Transfer-Encoding:ch\r\n\r\n0\r\n"⟩ := rfl
  exact parse_probe registry hline rfl maxSize h

/-- Bytes read of an abandoned body change what becomes of `lengthProbe`. -/
theorem lengthProbe_distinguishes {step : BodyStep} (h : step.bytesRead ≠ 0) :
    (BodyStep.apply (step, (lengthProbed : Request H).toMessage) (lit "x")).result ≠ .Done ∨
      (BodyStep.apply (step, (lengthProbed : Request H).toMessage) (lit "x")).state.2.body_ = [] := by
  have happly : BodyStep.apply (step, (lengthProbed : Request H).toMessage) (lit "x") =
      BodyStep.parseContentLength 1 (step, (lengthProbed : Request H).toMessage) (lit "x") := rfl
  rw [happly, BodyStep.parseContentLength_eq]
  by_cases h1 : step.bytesRead = 1
  · right
    have hm : BodyStep.missing 1 step = 0 := by rw [BodyStep.missing, h1]; rfl
    rw [hm]
    rfl
  · left
    -- `1 - bytesRead` is a huge number
    have hm : 1 < (BodyStep.missing 1 step).toNat := by
      have h0 : step.bytesRead.toNat ≠ 0 := fun e => h (UInt64.toNat.inj e)
      have h1' : step.bytesRead.toNat ≠ 1 := fun e => h1 (UInt64.toNat.inj e)
      have hlt := UInt64.toNat_lt step.bytesRead
      rw [BodyStep.missing, UInt64.toNat_sub]
      simp only [UInt64.toNat_one]
      omega
    rw [if_pos (by simpa [lit] using hm)]
    simp

/-- A chunk left of an abandoned body keeps `chunkProbe` from being done. -/
theorem chunkProbe_distinguishes {step : BodyStep} (h : step.chunk ≠ none) :
    (BodyStep.apply (step, (chunkProbed : Request H).toMessage) (lit "0\r\n")).result ≠ .Done := by
  obtain ⟨bytesRead, chunk⟩ := step
  cases chunk with
  | none => exact absurd rfl h
  | some c =>
    have happly : (BodyStep.apply (⟨bytesRead, some c⟩, (chunkProbed : Request H).toMessage)
        (lit "0\r\n")).result =
        (BodyStep.parseChunks (some c, (chunkProbed : Request H).toMessage) (lit "0\r\n")).result := rfl
    rw [happly, BodyStep.parseChunks, Loop.run_eq BodyStep.chunkBody_shrinks]
    have hparse : ∀ xs, Chunk.parse (some c) (chunkProbed : Request H).toMessage xs =
        Chunk.parseData c (chunkProbed : Request H).toMessage xs := fun _ => rfl
    rcases Chunk.parseData_cases c (chunkProbed : Request H).toMessage (lit "0\r\n") with
      ⟨_, he⟩ | ⟨hlen, hle, he⟩ | ⟨-, -, he⟩
    · simp [BodyStep.chunkBody, BodyStep.ofChunk, hparse, he]
    · -- the rest behind the chunk is at most one byte
      simp only [BodyStep.chunkBody, BodyStep.ofChunk, hparse, he]
      have hlen3 : (lit "0\r\n").length = 3 := rfl
      rw [hlen3] at hlen
      split
      · rename_i o ho
        split at ho
        · obtain rfl := Sum.inl.inj ho
          simp
        · cases ho
      · rename_i s' xs' ho
        split at ho
        · cases ho
        · obtain ⟨rfl, rfl⟩ := Prod.mk.inj (Sum.inr.inj ho)
          rename_i hne
          have hd : c.size - c.alreadyAppendedChunkBytes = 0 := by
            by_contra hd
            exact hne (List.drop_of_length_le (by rw [hlen3]; omega))
          rw [hd, Loop.run_eq BodyStep.chunkBody_shrinks]
          simp [BodyStep.chunkBody, BodyStep.ofChunk, Chunk.parse, show
            Chunk.sizeLine ((lit "0\r\n").drop 2) = none from rfl]
    · simp [BodyStep.chunkBody, BodyStep.ofChunk, hparse, he]

theorem reset_after (maxSize : Nat) (history : List Call) :
    reset (after registry (new maxSize) history) =
      { (new maxSize : ParserBase H RequestLine) with
        bodyStep := (after registry (new maxSize) history).bodyStep } := by
  have hmax := ParserBase.after_maxSize registry RequestLineStep.apply history
    (new maxSize : ParserBase H RequestLine)
  simp only [reset, ParserBase.reset, ArrayStreamBuf.reset, after, hmax]
  rfl

end RequestParser

/-! ## Response parsers -/

namespace ResponseParser

variable (registry : Registry H)

def after (p : ParserBase H Unit) : List Call → ParserBase H Unit :=
  ParserBase.after registry ResponseLineStep.apply p

def observe (p : ParserBase H Unit) : List Call → List (Reply × Response H) :=
  ParserBase.observe registry ResponseLineStep.apply p

/-- The body step has read nothing of a message without headers. -/
def Inv (k : Nat) (w : Work H Unit) : Prop :=
  (k < 2 → w.bodyStep = {}) ∧ (w.message.headers_ = .empty → w.bodyStep = {})

theorem inv_parse {k : Nat} {w : Work H Unit} {xs : Bytes} (h : Inv k w) :
    Inv (Work.parse registry ResponseLineStep.apply (k, w) xs).state.1
      (Work.parse registry ResponseLineStep.apply (k, w) xs).state.2 := by
  refine runChain_induction _ (fun k w _ => Inv k w) ?_ k w xs h
  intro j f w ys hf hw
  match j, hf with
  | 0, hf =>
    obtain rfl := Option.some.inj hf
    exact ⟨fun _ => hw.1 (by omega), fun _ => hw.1 (by omega)⟩
  | 1, hf =>
    obtain rfl := Option.some.inj hf
    exact ⟨fun _ => hw.1 (by omega), fun _ => hw.1 (by omega)⟩
  | 2, hf =>
    obtain rfl := Option.some.inj hf
    refine ⟨fun h2 => by split at h2 <;> omega, fun hempty => ?_⟩
    have hheaders : (BodyStep.apply w.body ys).state.2.headers_ = w.message.headers_ :=
      BodyStep.apply_headers w.body ys
    have hold : w.message.headers_ = .empty := hheaders.symm.trans hempty
    have hdone : BodyStep.apply w.body ys = ⟨.Done, w.body, ys⟩ := by
      unfold BodyStep.apply
      rw [show w.body.2.headers_ = .empty from hold]
      rfl
    simp only [lift, hdone]
    exact hw.2 hold
  | _ + 3, hf => simp [Work.allSteps] at hf

theorem inv_after (maxSize : Nat) (history : List Call) :
    Inv (after registry (new maxSize) history).currentStep
      (after registry (new maxSize) history).toWork := by
  refine ParserBase.after_induction registry ResponseLineStep.apply
    (fun p => Inv p.currentStep p.toWork) ?_ history _ ⟨fun _ => rfl, fun _ => rfl⟩
  intro p c h
  cases c with
  | feed data =>
    simp only [ParserBase.call, ParserBase.feed]
    cases p.buffer.feed data <;> exact h
  | parse => exact inv_parse registry h

theorem reset_after (maxSize : Nat) (history : List Call) :
    reset (after registry (new maxSize) history) =
      { (new maxSize : ParserBase H Unit) with
        toWork := (after registry (new maxSize) history).toWork } := by
  have hmax := ParserBase.after_maxSize registry ResponseLineStep.apply history
    (new maxSize : ParserBase H Unit)
  simp only [reset, ParserBase.reset, ArrayStreamBuf.reset, after, hmax]
  rfl

/-- The first `parse` of an empty buffer shows the message. -/
theorem observe_parse (w : Work H Unit) (maxSize : Nat) :
    observe registry { (new maxSize : ParserBase H Unit) with toWork := w } [.parse] =
      [(.parsed (.thrown (raise "Encountered invalid HTTP version" .Bad_Request)), w.message)] := rfl

end ResponseParser

/-- **Reuse.** A request parser that has been reset behaves like a new one, for every history
and every later sequence of calls, exactly when the history has left no body half read; a
response parser exactly when the history has set nothing in the response. -/
theorem reuse (registry : Registry H) (maxSize : Nat) (history : List Call) :
    ((∀ later, RequestParser.observe registry
          (RequestParser.reset (RequestParser.after registry (RequestParser.new maxSize) history)) later =
        RequestParser.observe registry (RequestParser.new maxSize) later) ↔
      (RequestParser.after registry (RequestParser.new maxSize) history).bodyStep = {}) ∧
    ((∀ later, ResponseParser.observe registry
          (ResponseParser.reset (ResponseParser.after registry (ResponseParser.new maxSize) history))
          later =
        ResponseParser.observe registry (ResponseParser.new maxSize) later) ↔
      (ResponseParser.after registry (ResponseParser.new maxSize) history).message = Response.new) := by
  constructor
  · rw [RequestParser.reset_after]
    have hinv := RequestParser.inv_after registry maxSize history
    have hmax : (RequestParser.after registry (RequestParser.new maxSize) history).buffer.maxSize =
        maxSize := ParserBase.after_maxSize registry _ history _
    constructor
    · intro hsame
      by_contra hne
      by_cases hb : (RequestParser.after registry (RequestParser.new maxSize) history).bodyStep.bytesRead = 0
      · have hc : (RequestParser.after registry (RequestParser.new maxSize) history).bodyStep.chunk ≠ none :=
          fun hc => hne (by
            revert hb hc
            generalize (RequestParser.after registry (RequestParser.new maxSize) history).bodyStep = b
            cases b
            rintro rfl rfl
            rfl)
        have hsize := (hinv.origin.chunk hc).trans (hinv.fits.trans (Nat.le_of_eq hmax))
        have hobs := hsame [.feed RequestParser.chunkProbe, .parse]
        rw [RequestParser.observe_chunkProbe registry _ hsize] at hobs
        have hnew := RequestParser.observe_chunkProbe registry (H := H) {} hsize
        rw [show { (RequestParser.new maxSize : ParserBase H RequestLine) with bodyStep := {} } =
          RequestParser.new maxSize from rfl] at hnew
        rw [hnew] at hobs
        simp only [List.cons.injEq, Prod.mk.injEq, Reply.parsed.injEq, true_and, and_true] at hobs
        exact RequestParser.chunkProbe_distinguishes hc (hobs.1.trans rfl)
      · have hsize := (hinv.origin.bytesRead hb).trans (hinv.fits.trans (Nat.le_of_eq hmax))
        have hobs := hsame [.feed RequestParser.lengthProbe, .parse]
        rw [RequestParser.observe_lengthProbe registry _ hsize] at hobs
        have hnew := RequestParser.observe_lengthProbe registry (H := H) {} hsize
        rw [show { (RequestParser.new maxSize : ParserBase H RequestLine) with bodyStep := {} } =
          RequestParser.new maxSize from rfl] at hnew
        rw [hnew] at hobs
        simp only [List.cons.injEq, Prod.mk.injEq, Reply.parsed.injEq, true_and, and_true] at hobs
        rcases RequestParser.lengthProbe_distinguishes (H := H) hb with h | h
        · exact h (hobs.1.trans rfl)
        · have hbody := congrArg (fun m : Request H => m.body_) hobs.2
          simp only [h] at hbody
          cases hbody
    · intro hclean later
      rw [hclean]
      rfl
  · rw [ResponseParser.reset_after]
    have hinv := ResponseParser.inv_after registry maxSize history
    constructor
    · intro hsame
      have hobs := hsame [.parse]
      rw [ResponseParser.observe_parse] at hobs
      exact (Prod.mk.inj (List.cons.inj hobs).1).2
    · intro hnew later
      have hbody := hinv.2 (by rw [hnew]; rfl)
      have hwork : (ResponseParser.after registry (ResponseParser.new maxSize) history).toWork =
          (ResponseParser.new maxSize : ParserBase H Unit).toWork := by
        revert hnew hbody
        generalize (ResponseParser.after registry (ResponseParser.new maxSize) history).toWork = w
        cases w
        rintro rfl rfl
        rfl
      rw [hwork]

/-- Three bytes of a body of ten, a reset, and then a body of five: two of its bytes are taken
for the whole body. -/
theorem reuse_after_part_of_body :
    RequestParser.observe Registry.basic
        (RequestParser.reset (RequestParser.after Registry.basic (RequestParser.new 4096)
          [.feed (lit "POST / HTTP/1.1\r\nContent-Length: 10\r\n\r\nabc"), .parse]))
        [.feed (lit "POST / HTTP/1.1\r\nContent-Length: 5\r\n\r\nhello"), .parse] ≠
      RequestParser.observe Registry.basic (RequestParser.new 4096)
        [.feed (lit "POST / HTTP/1.1\r\nContent-Length: 5\r\n\r\nhello"), .parse] := by
  decide

end Pistache.Http
