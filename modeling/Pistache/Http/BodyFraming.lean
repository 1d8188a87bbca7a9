import Pistache.Http.Chunked
import Pistache.Http.HeadLines
import Pistache.Http.WholeMessage

/-!
# Which body a head declares

A head may hold any number of `Content-Length` and `Transfer-Encoding` lines.  The header map
keeps the first of either name, `std::stoull` takes a sign, white space and whatever follows the
digits, and what is no number is a length of zero.

* `Framed` — what the body step may do behind a head, in terms of the values of these lines.
* `headers_contentLength`, `headers_transferEncoding` — what the head leaves in the message.
* `framed_iff` — the body step does that exactly when the lengths, if there are any and no
  encoding beside them, are one decimal number.
-/

set_option autoImplicit false

namespace Pistache.Http.BodyFraming

open Replay Resumable HeadersStep

variable {H L : Type}

/-! ## Values of lines -/

/-- The values of the lines of a name, which is given in lower case. -/
def values (name : Bytes) (ls : List (Bytes × Bytes)) : List Bytes :=
  (ls.filter fun l => l.1.map tolower = name).map Prod.snd

theorem mem_values {name value : Bytes} {ls : List (Bytes × Bytes)} :
    value ∈ values name ls ↔ ∃ l ∈ ls, l.1.map tolower = name ∧ l.2 = value := by
  simp [values, and_assoc]

theorem values_eq_nil {name : Bytes} {ls : List (Bytes × Bytes)} :
    values name ls = [] ↔ ∀ l ∈ ls, l.1.map tolower ≠ name := by
  simp [values]

/-- The value is the decimal number, `1*DIGIT` below `2 ^ 64`, with white space around it. -/
def IsDecimal (value : Bytes) (n : UInt64) : Prop :=
  ∃ front digits back : Bytes, value = front ++ digits ++ back ∧
    front.all isspace = true ∧ back.all isspace = true ∧ digits ≠ [] ∧
    digitsValue 10 0 digits = some n.toNat

theorem IsDecimal.chars {value : Bytes} {n : UInt64} (h : IsDecimal value n) :
    (value.all fun c => isspace c || isDigitOf 10 c) = true := by
  obtain ⟨front, digits, back, rfl, hfront, hback, -, hv⟩ := h
  rw [List.all_eq_true] at hfront hback ⊢
  intro c hc
  rw [Bool.or_eq_true]
  rcases List.mem_append.mp hc with hc | hc
  · rcases List.mem_append.mp hc with hc | hc
    · exact .inl (hfront c hc)
    · exact .inr (digitsValue_isSome_takeWhile hv c hc)
  · exact .inl (hback c hc)

/-- A decimal number is read as it stands there. -/
theorem IsDecimal.parse {value : Bytes} {n : UInt64} (h : IsDecimal value n) :
    Header.ContentLength.parse value = .ok n := by
  obtain ⟨front, digits, back, rfl, hfront, hback, hne, hv⟩ := h
  rw [List.all_eq_true] at hfront hback
  have hdigits := digitsValue_isSome_takeWhile hv
  obtain ⟨c, text, rfl⟩ := List.exists_cons_of_ne_nil hne
  obtain ⟨hspace, hminus, hplus, -⟩ := digit_plain (hdigits c List.mem_cons_self)
  have hdrop : (front ++ (c :: text) ++ back).dropWhile isspace = c :: text ++ back := by
    rw [List.append_assoc, List.dropWhile_append_of_pos hfront, List.cons_append,
      List.dropWhile_cons, hspace]
    rfl
  have hback' : back.takeWhile (isDigitOf 10) = [] := by
    cases back with
    | nil => rfl
    | cons d back =>
      have hd : isDigitOf 10 d = false := by
        rw [Bool.eq_false_iff]
        intro hd
        have hspace' := (digit_plain hd).1
        rw [hback d List.mem_cons_self] at hspace'
        cases hspace'
      rw [List.takeWhile_cons, hd]
      rfl
  have htake : (c :: text ++ back).takeWhile (isDigitOf 10) = c :: text := by
    rw [List.takeWhile_append_of_pos hdigits, hback', List.append_nil]
  have hminus' : (c :: text ++ back).head? ≠ some 45 := by simpa using hminus
  have hplus' : (c :: text ++ back).head? ≠ some 43 := by simpa using hplus
  simp only [Header.ContentLength.parse, stoull, hdrop, hminus', hplus', or_self, if_false, htake,
    hne, hv, if_pos (UInt64.toNat_lt n), UInt64.ofNat_toNat]

/-! ## What the body step does -/

/-- The body step reads a body of `n` bytes. -/
def ReadsLength (m : Message H) (n : UInt64) : Prop :=
  ∀ xs : Bytes, (xs.length < n.toNat → (BodyStep.apply ({}, m) xs).result = .Again) ∧
    (n.toNat ≤ xs.length → BodyStep.apply ({}, m) xs =
      ⟨.Done, ({}, m.append (xs.take n.toNat)), xs.drop n.toNat⟩)

/-- The body step decodes chunks. -/
def DecodesChunks (m : Message H) : Prop :=
  ∀ xs : Bytes, BodyStep.apply ({}, m) xs = BodyStep.parseTransferEncoding .Chunked ({}, m) xs

/-- The body step reads no body. -/
def ReadsNone (m : Message H) : Prop :=
  ∀ xs : Bytes, BodyStep.apply ({}, m) xs = ⟨.Done, ({}, m), xs⟩

/-- The body step throws. -/
def Throws (m : Message H) : Prop :=
  ∀ xs : Bytes, ∃ e, (BodyStep.apply ({}, m) xs).result = .thrown e

/-- The body is framed as the values of the `Content-Length` and `Transfer-Encoding` lines
say. -/
structure Framed (lengths encodings : List Bytes) (m : Message H) : Prop where
  length : ∀ n, ReadsLength m n → encodings = [] ∧ ∀ value ∈ lengths, IsDecimal value n
  chunks : DecodesChunks m → lengths = []
  none : ReadsNone m →
    lengths = [] ∧ encodings = [] ∨ encodings = [] ∧ ∀ value ∈ lengths, IsDecimal value 0
  other : lengths ≠ [] → ¬(encodings = [] ∧ ∃ n, ∀ value ∈ lengths, IsDecimal value n) → Throws m

/-- The message has the headers that the lengths and the encodings say. -/
structure Declares (lengths encodings : List Bytes) (m : Message H) : Prop where
  length_none : m.headers_.contentLength = .none ↔ lengths = []
  length_some : ∀ n, m.headers_.contentLength = some n →
    ∃ value ∈ lengths, Header.ContentLength.parse value = .ok n
  encoding_none : m.headers_.transferEncoding = .none ↔ encodings = []

/-! ## What the head leaves -/

section Head

variable {registry : Registry H} {ls : List (Bytes × Bytes)} {name : Bytes}

theorem lookup_some {header : TypedHeader H}
    (h : (ls.filterMap (typedEntry registry)).lookup name = some header) :
    ∃ l ∈ ls, l.1.map tolower = name ∧ typed registry l.1 l.2 = some (.ok header) := by
  obtain ⟨front, back, hsplit, -⟩ := List.lookup_eq_some_iff.mp h
  have hmem : (name, header) ∈ ls.filterMap (typedEntry registry) := by
    rw [hsplit]
    simp
  obtain ⟨l, hl, hentry⟩ := List.mem_filterMap.mp hmem
  obtain ⟨hname, htyped⟩ := typedEntry_some hentry
  exact ⟨l, hl, hname.symm, htyped⟩

/-- Where every line of the name gives a header, there is one when there is a line. -/
theorem lookup_none_iff
    (htyped : ∀ l ∈ ls, l.1.map tolower = name →
      ∃ header, typed registry l.1 l.2 = some (.ok header)) :
    (ls.filterMap (typedEntry registry)).lookup name = none ↔ values name ls = [] := by
  rw [values_eq_nil]
  constructor
  · intro h l hl hname
    obtain ⟨header, hheader⟩ := htyped l hl hname
    have hentry := typedEntry_of_typed hheader
    rw [hname] at hentry
    have hne := List.lookup_eq_none_iff.mp h (name, header) (List.mem_filterMap.mpr ⟨l, hl, hentry⟩)
    simp at hne
  · intro h
    cases hl : (ls.filterMap (typedEntry registry)).lookup name with
    | none => rfl
    | some header =>
      obtain ⟨l, hl, hname, -⟩ := lookup_some hl
      exact absurd hname (h l hl)

/-- **What an accepted head declares.** -/
theorem declares {m : Derived H L} (hnew : m.headers_ = .empty) {xs : Bytes}
    (hnext : (HeadersStep.apply registry m xs).result = .Next) :
    Declares (values (lit "content-length") (lines xs)) (values (lit "transfer-encoding") (lines xs))
      (HeadersStep.apply registry m xs).state.toMessage := by
  obtain ⟨hstate, hthrown⟩ := apply_of_next hnext
  have hlookup : ∀ key, (HeadersStep.apply registry m xs).state.headers_.headers.lookup key =
      ((lines xs).filterMap (typedEntry registry)).lookup key := by
    intro key
    rw [hstate]
    dsimp only
    rw [applyAll_update_headers, hnew, lookup_applyAll_insertNew]
    rfl
  have hlengths : ∀ l ∈ lines xs, l.1.map tolower = lit "content-length" →
      ∃ n, Header.ContentLength.parse l.2 = .ok n ∧
        typed registry l.1 l.2 = some (.ok (.ContentLength n)) :=
    fun l hl hname => typed_contentLength hname (hthrown l hl)
  have hlengthNone :
      ((lines xs).filterMap (typedEntry registry)).lookup (lit "content-length") = none ↔
        values (lit "content-length") (lines xs) = [] := lookup_none_iff fun l hl hname => by
      obtain ⟨n, -, htyped⟩ := hlengths l hl hname
      exact ⟨_, htyped⟩
  have hencodingNone :
      ((lines xs).filterMap (typedEntry registry)).lookup (lit "transfer-encoding") = none ↔
        values (lit "transfer-encoding") (lines xs) = [] :=
    lookup_none_iff fun l _ hname => ⟨_, typed_encoding hname l.2⟩
  refine ⟨?_, fun n hn => ?_, ?_⟩
  · rw [Header.Collection.contentLength, hlookup, ← hlengthNone]
    cases hl : ((lines xs).filterMap (typedEntry registry)).lookup (lit "content-length") with
    | none => simp
    | some header =>
      obtain ⟨l, -, hname, htyped⟩ := lookup_some hl
      obtain ⟨n, rfl⟩ := contentLength_of_typed hname htyped
      simp
  · rw [Header.Collection.contentLength, hlookup] at hn
    cases hl : ((lines xs).filterMap (typedEntry registry)).lookup (lit "content-length") with
    | none => simp [hl] at hn
    | some header =>
      obtain ⟨l, hmem, hname, htyped⟩ := lookup_some hl
      obtain ⟨n', hparse, htyped'⟩ := hlengths l hmem hname
      rw [htyped] at htyped'
      cases htyped'
      simp only [hl, Option.some.injEq] at hn
      subst hn
      exact ⟨l.2, mem_values.mpr ⟨l, hmem, hname, rfl⟩, hparse⟩
  · rw [Header.Collection.transferEncoding, hlookup, ← hencodingNone]
    cases hl : ((lines xs).filterMap (typedEntry registry)).lookup (lit "transfer-encoding") with
    | none => simp
    | some header =>
      obtain ⟨l, -, hname, htyped⟩ := lookup_some hl
      rw [typed_encoding hname] at htyped
      cases htyped
      simp

end Head

/-! ## What excludes what -/

section Reads

variable {m : Message H} {n n' : UInt64}

theorem ReadsLength.not_throws (h : ReadsLength m n) : ¬Throws m := by
  intro hthrows
  obtain ⟨e, he⟩ := hthrows []
  by_cases hn : 0 < n.toNat
  · have hagain := (h []).1 hn
    rw [he] at hagain
    cases hagain
  · rw [(h []).2 (Nat.le_of_not_lt hn)] at he
    cases he

theorem ReadsNone.readsLength (h : ReadsNone m) : ReadsLength m 0 := by
  intro xs
  refine ⟨fun hlt => absurd hlt (Nat.not_lt_zero _), fun _ => ?_⟩
  rw [h xs]
  simp

theorem ReadsLength.le (h : ReadsLength m n) (h' : ReadsLength m n') : n.toNat ≤ n'.toNat := by
  by_contra hlt
  have hagain := (h (List.replicate n'.toNat 0)).1 (by rw [List.length_replicate]; omega)
  rw [(h' (List.replicate n'.toNat 0)).2 (by rw [List.length_replicate])] at hagain
  cases hagain

theorem ReadsLength.unique (h : ReadsLength m n) (h' : ReadsLength m n') : n = n' :=
  UInt64.toNat.inj (Nat.le_antisymm (h.le h') (h'.le h))

/-- The decoder of chunks takes the last size line and nothing else, a reader of as many bytes
would take them into the body. -/
theorem DecodesChunks.not_readsLength (h : DecodesChunks m) : ¬ReadsLength m n := by
  intro hn
  have hchunks : BodyStep.apply ({}, m) Chunked.lastLine = ⟨.Done, ({}, m), []⟩ := by
    have hfinal := Chunked.parseChunks_final m []
    rw [List.append_nil] at hfinal
    rw [h, BodyStep.parseTransferEncoding, if_pos rfl]
    simp only [lift, BodyStep.chunkOf, BodyStep.setChunk, hfinal]
  by_cases hle : n.toNat ≤ Chunked.lastLine.length
  · have hread := (hn Chunked.lastLine).2 hle
    rw [hchunks, Out.mk.injEq, Prod.mk.injEq] at hread
    obtain ⟨-, ⟨-, hbody⟩, hrest⟩ := hread
    have htake := congrArg (fun m : Message H => m.body_.length) hbody
    have hdrop := congrArg List.length hrest
    simp only [Message.append_body, List.length_append, List.length_take, List.length_nil,
      List.length_drop] at htake hdrop
    have hthree : Chunked.lastLine.length = 3 := rfl
    omega
  · have hagain := (hn Chunked.lastLine).1 (Nat.lt_of_not_le hle)
    rw [hchunks] at hagain
    cases hagain

theorem DecodesChunks.not_throws (h : DecodesChunks m) : ¬Throws m := by
  intro hthrows
  obtain ⟨e, he⟩ := hthrows []
  have hnil := Chunked.parseChunks_lastLine m (t := []) List.nil_prefix (by decide)
  rw [h, BodyStep.parseTransferEncoding, if_pos rfl] at he
  simp only [lift, BodyStep.chunkOf, hnil] at he
  cases he

end Reads

/-! ## The framing -/

section Framing

variable {m : Message H} {lengths encodings : List Bytes}

/-- **The body is framed** as its head says exactly when the lengths, if there are any and no
encoding beside them, are one decimal number. -/
theorem Declares.framed (h : Declares lengths encodings m) :
    Framed lengths encodings m ↔
      lengths = [] ∨ encodings ≠ [] ∨ ∃ n, ∀ value ∈ lengths, IsDecimal value n := by
  cases hte : m.headers_.transferEncoding with
  | some te =>
    have hencodings : encodings ≠ [] := fun e => by
      rw [h.encoding_none.mpr e] at hte
      cases hte
    refine ⟨fun _ => .inr (.inl hencodings), fun _ => ?_⟩
    cases hcl : m.headers_.contentLength with
    | some n =>
      have hthrows : Throws m := fun xs =>
        ⟨raise "Got mutually exclusive ContentLength and TransferEncoding header" .Bad_Request, by
          simp only [BodyStep.apply, hcl, hte]⟩
      exact
        { length := fun n' hn' => absurd hthrows hn'.not_throws
          chunks := fun hchunks => absurd hthrows hchunks.not_throws
          none := fun hnone => absurd hthrows hnone.readsLength.not_throws
          other := fun _ _ => hthrows }
    | none =>
      have hlengths : lengths = [] := h.length_none.mp hcl
      have hreads : ∀ n, ¬ReadsLength m n := by
        intro n hn
        by_cases hchunked : te = .Chunked
        · subst hchunked
          have hchunks : DecodesChunks m := fun xs => by
            simp only [BodyStep.apply, hcl, hte]
          exact hchunks.not_readsLength hn
        · refine hn.not_throws fun xs => ⟨raise "Unsupported Transfer-Encoding" .Not_Implemented, ?_⟩
          simp only [BodyStep.apply, hcl, hte, BodyStep.parseTransferEncoding, if_neg hchunked]
      exact
        { length := fun n hn => absurd hn (hreads n)
          chunks := fun _ => hlengths
          none := fun hnone => absurd hnone.readsLength (hreads 0)
          other := fun hne => absurd hlengths hne }
  | none =>
    have hencodings : encodings = [] := h.encoding_none.mp hte
    cases hcl : m.headers_.contentLength with
    | none =>
      have hlengths : lengths = [] := h.length_none.mp hcl
      refine ⟨fun _ => .inl hlengths, fun _ => ?_⟩
      exact
        { length := fun n _ => ⟨hencodings, fun value hv => by rw [hlengths] at hv; cases hv⟩
          chunks := fun _ => hlengths
          none := fun _ => .inl ⟨hlengths, hencodings⟩
          other := fun hne => absurd hlengths hne }
    | some n =>
      have hreads : ReadsLength m n := fun xs => by
        rw [BodyStep.apply_declared hcl hte]
        exact ⟨fun hlt => by rw [if_pos hlt], fun hle => if_neg (Nat.not_lt.mpr hle)⟩
      obtain ⟨value, hvalue, hparse⟩ := h.length_some n hcl
      have hlengths : lengths ≠ [] := List.ne_nil_of_mem hvalue
      constructor
      · intro hframed
        exact .inr (.inr ⟨n, (hframed.length n hreads).2⟩)
      · rintro (hnil | hne | ⟨n', hall⟩)
        · exact absurd hnil hlengths
        · exact absurd hencodings hne
        · -- the first length is the number that all of them are
          have hread := (hall value hvalue).parse
          rw [hparse] at hread
          obtain rfl := Except.ok.inj hread
          exact
            { length := fun n'' hn'' => ⟨hencodings, by rw [hn''.unique hreads]; exact hall⟩
              chunks := fun hchunks => absurd hreads hchunks.not_readsLength
              none := fun hnone => .inr ⟨hencodings, by
                rw [hnone.readsLength.unique hreads]
                exact hall⟩
              other := fun _ hother => absurd ⟨hencodings, n, hall⟩ hother }

end Framing

/-- **Message framing.**  Behind a head that the parser accepts the body is framed by the
`Content-Length` and `Transfer-Encoding` lines of the head exactly when there is no length, or
an encoding beside it, or every length is the same decimal number. -/
theorem framed_iff (registry : Registry H) (m : Derived H L) (hnew : m.headers_ = .empty) (xs : Bytes)
    (haccepted : (HeadersStep.apply registry m xs).result = .Next) :
    Framed (values (lit "content-length") (lines xs)) (values (lit "transfer-encoding") (lines xs))
        (HeadersStep.apply registry m xs).state.toMessage ↔
      values (lit "content-length") (lines xs) = [] ∨
      values (lit "transfer-encoding") (lines xs) ≠ [] ∨
      ∃ n, ∀ value ∈ values (lit "content-length") (lines xs), IsDecimal value n :=
  (declares hnew haccepted).framed

/-! ### Two heads -/

def sameHead : Bytes := lit "Content-Length: 5\r\nHost: a\r\ncontent-length: 05 \r\n\r\n"

theorem framed_sameHead :
    Framed [lit "5", lit "05 "] [] (HeadersStep.apply Registry.basic Request.new sameHead).state.toMessage := by
  have hlengths : values (lit "content-length") (lines sameHead) = [lit "5", lit "05 "] := by
    decide
  have hencodings : values (lit "transfer-encoding") (lines sameHead) = [] := by decide
  have hframed := (framed_iff Registry.basic Request.new rfl sameHead (by decide)).mpr (.inr (.inr ⟨5, by
    rw [hlengths]
    intro value hvalue
    simp only [List.mem_cons, List.not_mem_nil, or_false] at hvalue
    rcases hvalue with rfl | rfl
    · exact ⟨[], lit "5", [], by decide, by decide, by decide, by decide, by decide⟩
    · exact ⟨[], lit "05", lit " ", by decide, by decide, by decide, by decide, by decide⟩⟩))
  rwa [hlengths, hencodings] at hframed

def junkHead : Bytes := lit "Content-Length: 5x\r\nContent-Length: 6\r\n\r\n"

/-- A length with a letter behind it is read as five, and the other length is passed over. -/
theorem not_framed_junkHead :
    (HeadersStep.apply Registry.basic Request.new junkHead).result = .Next ∧
      values (lit "content-length") (lines junkHead) = [lit "5x", lit "6"] ∧
      ReadsLength (HeadersStep.apply Registry.basic Request.new junkHead).state.toMessage 5 ∧
      ¬Framed (values (lit "content-length") (lines junkHead))
        (values (lit "transfer-encoding") (lines junkHead))
        (HeadersStep.apply Registry.basic Request.new junkHead).state.toMessage := by
  have hlengths : values (lit "content-length") (lines junkHead) = [lit "5x", lit "6"] := by
    decide
  have hreads : ReadsLength
      (HeadersStep.apply Registry.basic Request.new junkHead).state.toMessage 5 := fun xs => by
    have hcl : (HeadersStep.apply Registry.basic Request.new junkHead).state.headers_.contentLength =
        some 5 := by decide
    have hte : (HeadersStep.apply Registry.basic Request.new junkHead).state.headers_.transferEncoding =
        none := by decide
    rw [BodyStep.apply_declared hcl hte]
    exact ⟨fun hlt => by rw [if_pos hlt], fun hle => if_neg (Nat.not_lt.mpr hle)⟩
  refine ⟨by decide, hlengths, hreads, fun hframed => ?_⟩
  have hdecimal := (hframed.length 5 hreads).2 (lit "5x") (by rw [hlengths]; decide)
  exact absurd hdecimal.chars (by decide)

end Pistache.Http.BodyFraming
