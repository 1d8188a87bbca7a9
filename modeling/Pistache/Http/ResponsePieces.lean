import Pistache.Http.Framing

/-!
# Responses in pieces

`ResponseLineStep` matches the version against the two it knows, and a text that is too short
for them matches neither: it is refused like a wrong one.  `ResponseLineStep.patient` is the
step that would wait for the bytes of the version.  From these bytes on the two steps are the
same, and the patient one resumes.

* `ResponseLineStep.patient_settles`, `ResponseLineStep.patient_resumes`.
* `ResponseParser.Heard` — the parser has received a part of a response, in pieces.
* `ResponseParser.response_in_pieces` — a response in pieces is parsed as in one piece exactly
  when the first piece holds the version, or all, and no piece ends where the decoder of
  chunks goes wrong.
-/

set_option autoImplicit false

namespace Pistache.Http

open Replay Resumable

variable {H : Type}

/-! ## The status line -/

/-- A text is matched, or not, for good once there are bytes enough. -/
theorem match_raw_more {text xs : Bytes} (h : text.length ≤ xs.length) (z : Bytes) :
    match_raw text (xs ++ z) = (match_raw text xs).map (· ++ z) := by
  have hxs : ¬xs.length < text.length := Nat.not_lt.mpr h
  have hmore : ¬(xs ++ z).length < text.length := by
    rw [List.length_append]
    omega
  rw [match_raw, match_raw, if_neg hmore, if_neg hxs, List.take_append_of_le_length h,
    List.drop_append_of_le_length h]
  split <;> rfl

namespace ResponseLineStep

/-- The length of `HTTP/1.1` and of `HTTP/1.0`. -/
def versionLength : Nat := 8

/-- `version` of a step that waits for the bytes it is to compare. -/
def patientVersion (response : Response H) (cursor : Bytes) : Out State (Response H) UInt8 :=
  if cursor.length < versionLength then ⟨.Again, response, cursor⟩ else version response cursor

def patient : Step (Response H) :=
  revert State.Next (andThen State.Next (andThen State.Next patientVersion code) reason)

/-- With the bytes of the version the steps are the same. -/
theorem patient_eq {xs : Bytes} (h : versionLength ≤ xs.length) (m : Response H) :
    patient m xs = apply m xs := by
  have hversion : patientVersion m xs = version m xs := if_neg (by omega)
  unfold patient apply revert andThen
  rw [hversion]

/-- With fewer the step of the source throws. -/
theorem apply_short {xs : Bytes} (h : xs.length < versionLength) (m : Response H) :
    apply m xs = ⟨.thrown (raise "Encountered invalid HTTP version" .Bad_Request), m, xs⟩ := by
  have hone : ∀ text : Bytes, text.length = versionLength → match_raw text xs = none :=
    fun text ht => if_pos (by omega)
  have hversion : version m xs =
      ⟨.thrown (raise "Encountered invalid HTTP version" .Bad_Request), m, xs⟩ := by
    simp only [version, hone (lit "HTTP/1.1") rfl, hone (lit "HTTP/1.0") rfl, Option.orElse_none]
  simp [apply, revert, andThen, hversion]

/-- The assignment of the step. -/
def assign (c : Code) (m : Response H) : Response H := { m with code_ := c }

theorem assign_replays : Replays (assign (H := H)) := by
  have hall := (replays_overwrite (σ := Code) (some : Code → Option Code)).map
    (fun m : Response H => m.code_) (fun c m => { m with code_ := c })
    (fun _ _ => rfl) (fun _ _ _ => rfl) (fun _ => rfl)
  exact hall

theorem patientVersion_emitting :
    Emitting State.Again assign (patientVersion (H := H)) := by
  refine Emitting.of_waits fun xs => ?_
  by_cases hshort : xs.length < versionLength
  · exact .inr ⟨xs, fun m => if_pos hshort⟩
  have hlong : ∀ (m : Response H) (z : Bytes), patientVersion m (xs ++ z) = version m (xs ++ z) :=
    fun m z => if_neg (by rw [List.length_append]; omega)
  have hmore : ∀ z, ((match_raw (lit "HTTP/1.1") (xs ++ z)).orElse
        fun _ => match_raw (lit "HTTP/1.0") (xs ++ z)) =
      ((match_raw (lit "HTTP/1.1") xs).orElse fun _ => match_raw (lit "HTTP/1.0") xs).map
        (· ++ z) := by
    intro z
    have hle : (lit "HTTP/1.1").length ≤ xs.length ∧ (lit "HTTP/1.0").length ≤ xs.length := by
      have hone : (lit "HTTP/1.1").length = versionLength := rfl
      have hzero : (lit "HTTP/1.0").length = versionLength := rfl
      omega
    rw [match_raw_more hle.1, match_raw_more hle.2]
    cases match_raw (lit "HTTP/1.1") xs <;> rfl
  cases hm : (match_raw (lit "HTTP/1.1") xs).orElse fun _ => match_raw (lit "HTTP/1.0") xs with
  | none =>
    refine .inl ⟨[], .thrown (raise "Encountered invalid HTTP version" .Bad_Request), xs, by simp,
      fun m z => ?_⟩
    simp only [hlong, version, hmore, hm, Option.map_none]
    rfl
  | some rest =>
    have hspace : ∀ (m : Response H) (z : Bytes), patientVersion m (xs ++ z) =
        if ¬currentIsEof (rest ++ z) ∧ current (rest ++ z) ≠ SP then
          ⟨.thrown (raise "Expected SPACE after http version" .Bad_Request), m, rest ++ z⟩
        else if rest ++ z = [] then ⟨.Again, m, rest ++ z⟩
        else ⟨.Next, m, (rest ++ z).drop 1⟩ := by
      intro m z
      simp only [hlong, version, hmore, hm, Option.map_some]
    cases rest with
    | nil =>
      refine .inr ⟨[], fun m => ?_⟩
      have hend := hspace m []
      rw [List.append_nil] at hend
      rw [hend]
      rfl
    | cons c rest =>
      refine .inl ?_
      by_cases hc : ¬currentIsEof (c :: rest) ∧ c ≠ SP
      · exact ⟨[], .thrown (raise "Expected SPACE after http version" .Bad_Request), c :: rest,
          by simp, fun m z => (hspace m z).trans (if_pos hc)⟩
      · exact ⟨[], .Next, rest, by simp, fun m z =>
          (hspace m z).trans ((if_neg hc).trans (if_neg (by simp)))⟩

theorem code_emitting : Emitting State.Again assign (code (H := H)) := by
  refine Emitting.of_waits fun xs => ?_
  cases h : match_until [SP] xs with
  | none => exact .inr ⟨xs, fun m => by simp [code, h]⟩
  | some p =>
    obtain ⟨tok, rest⟩ := p
    have hz := match_until_append h
    obtain ⟨-, c, rest', rfl, -⟩ := match_until_some h
    refine .inl ?_
    have hthrown : ∀ (m : Response H) (z : Bytes), (∀ n, from_charsInt tok ≠ .ok (n, [])) →
        code m (xs ++ z) =
          ⟨.thrown (raise "Failed to parse return code" .Bad_Request), m, c :: (rest' ++ z)⟩ := by
      intro m z hn
      simp only [code, hz z]
      rfl
    by_cases hn : ∃ n, from_charsInt tok = .ok (n, [])
    · obtain ⟨n, hn⟩ := hn
      exact ⟨[⟨n⟩], .Next, rest', by simp, fun m z => by
        simp only [code, hz z, hn]
        rfl⟩
    · exact ⟨[], .thrown (raise "Failed to parse return code" .Bad_Request), c :: rest', by simp,
        fun m z => hthrown m z fun n he => hn ⟨n, he⟩⟩

theorem reason_emitting : Emitting State.Again assign (reason (H := H)) := by
  refine Emitting.of_waits fun xs => ?_
  cases h : untilEol xs with
  | none => exact .inr ⟨xs, fun m => by simp [reason, h]⟩
  | some p =>
    obtain ⟨tok, rest⟩ := p
    have hz := untilEol_append h
    obtain ⟨-, rest', rfl⟩ := untilEol_some h
    exact .inl ⟨[], .Next, rest', by simp, fun m z => by simp [reason, hz z]⟩

theorem patient_emitting : Emitting State.Again assign
    (Resumable.andThen State.Next (Resumable.andThen State.Next
      (patientVersion (H := H)) code) reason) :=
  (patientVersion_emitting.andThen (by simp) code_emitting).andThen (by simp) reason_emitting

theorem patient_settles : Settles State.Again (fun _ => True) (patient (H := H)) :=
  patient_emitting.settles

/-- **A status line in pieces** is read by the patient step as if it had arrived whole. -/
theorem patient_resumes : Resumes State.Again (fun _ => True) (patient (H := H)) :=
  patient_emitting.resumes assign_replays (by simp)

theorem version_forward : Forward (version (H := H)) := by
  intro m xs
  unfold version
  cases h : (match_raw (lit "HTTP/1.1") xs).orElse fun _ => match_raw (lit "HTTP/1.0") xs with
  | none => exact List.suffix_refl _
  | some rest =>
    have hs : rest <:+ xs := by
      cases hone : match_raw (lit "HTTP/1.1") xs with
      | none =>
        rw [hone] at h
        exact ⟨_, (match_raw_iff.mp h).symm⟩
      | some rest' =>
        rw [hone] at h
        obtain rfl := Option.some.inj h
        exact ⟨_, (match_raw_iff.mp hone).symm⟩
    dsimp only
    repeat' split
    all_goals first | exact hs | exact drop_suffix_of hs 1

theorem code_forward : Forward (code (H := H)) := by
  intro m xs
  unfold code
  cases h : match_until [SP] xs with
  | none => exact List.suffix_refl _
  | some p =>
    have hs := match_until_suffix h
    dsimp only
    split
    · exact drop_suffix_of hs 1
    · exact hs

theorem reason_forward : Forward (reason (H := H)) := by
  intro m xs
  unfold reason
  cases h : untilEol xs with
  | none => exact List.suffix_refl _
  | some p => exact drop_suffix_of (untilEol_suffix h) 2

theorem forward : Forward (apply (H := H)) :=
  revert_forward State.Next
    (andThen_forward State.Next (andThen_forward State.Next version_forward code_forward)
      reason_forward)

end ResponseLineStep

/-! ## Well-formed responses -/

open ResponseLineStep

/-- A response that is well formed: its head, what the parser reads from the head, and the
body. -/
structure WellformedResponse (registry : Registry H) where
  head : Bytes
  message : Response H
  body : BodyText
  accepted : parseHead registry ResponseLineStep.apply (0, Response.new) head =
    ⟨.Next, (2, message), []⟩
  declared : body.DeclaredBy message.headers_

namespace ResponseParser

/-- What one call of `parse` makes of the bytes `t` in a new parser. -/
def parseResponse (registry : Registry H) (t : Bytes) : Out State (Nat × Work H Unit) UInt8 :=
  Work.parse registry ResponseLineStep.apply (0, ⟨Response.new, {}⟩) t

variable {registry : Registry H}

/-- With the bytes of the version, or behind the status line, a parse is that of the patient
step. -/
theorem parse_patient {k : Nat} {xs : Bytes} (h : k = 0 → versionLength ≤ xs.length)
    (w : Work H Unit) :
    Work.parse registry ResponseLineStep.apply (k, w) xs = Work.parse registry patient (k, w) xs := by
  cases k with
  | succ k => rfl
  | zero =>
    have hline : lift Work.message Work.setMessage ResponseLineStep.apply w xs =
        lift Work.message Work.setMessage patient w xs := by
      rw [lift, lift, patient_eq (h rfl)]
    simp only [Work.parse, runChain, Work.allSteps, List.drop_zero, chain, hline]

theorem parseHead_patient {xs : Bytes} (h : versionLength ≤ xs.length) (m : Response H) :
    parseHead registry ResponseLineStep.apply (0, m) xs = parseHead registry patient (0, m) xs := by
  simp only [parseHead, runChain, headSteps, List.drop_zero, chain, patient_eq h]

/-- A parser that is still in front of the headers has all of its bytes unread. -/
theorem parseResponse_line {t : Bytes} (h : (parseResponse registry t).state.1 = 0) :
    (parseResponse registry t).rest = t := by
  unfold parseResponse Work.parse runChain Work.allSteps at h ⊢
  rw [List.drop_zero, chain] at h ⊢
  split at h
  · exact absurd (Nat.le_trans (le_chain State.Next _ 1 _ _) (Nat.le_of_eq h)) (by decide)
  · rename_i hline
    rw [if_neg hline]
    have hline' : (ResponseLineStep.apply (Response.new : Response H) t).result ≠ .Next := hline
    exact revert_rest State.Next hline'

/-- A call that has too little of the version to compare throws. -/
theorem parseResponse_short {t : Bytes} (h : t.length < versionLength) :
    (parseResponse registry t).result =
      .thrown (raise "Encountered invalid HTTP version" .Bad_Request) := by
  have hline : lift Work.message Work.setMessage ResponseLineStep.apply
      (⟨Response.new, {}⟩ : Work H Unit) t =
        ⟨.thrown (raise "Encountered invalid HTTP version" .Bad_Request), ⟨Response.new, {}⟩, t⟩ := by
    rw [lift, apply_short h]
    rfl
  simp [parseResponse, Work.parse, runChain, Work.allSteps, chain, hline]

end ResponseParser

namespace WellformedResponse

open ResponseParser

variable {registry : Registry H} (r : WellformedResponse registry)

def bytes : Bytes := r.head ++ r.body.bytes

/-- A first part of the response that ends where the decoder of chunks goes wrong. -/
def Cut (t : Bytes) : Prop := ∃ b, t = r.head ++ b ∧ r.body.Cut b

theorem versionLength_le : versionLength ≤ r.head.length := by
  by_contra h
  have hline := apply_short (H := H) (Nat.lt_of_not_le h) Response.new
  have haccepted := congrArg Out.result r.accepted
  simp [parseHead, runChain, headSteps, chain, hline] at haccepted

theorem accepted_patient : parseHead registry patient (0, Response.new) r.head =
    ⟨.Next, (2, r.message), []⟩ := by
  rw [← parseHead_patient r.versionLength_le]
  exact r.accepted

theorem parseResponse_patient {t : Bytes} (h : versionLength ≤ t.length) :
    parseResponse registry t = Work.parse registry patient (0, ⟨Response.new, {}⟩) t :=
  parse_patient (fun _ => h) _

/-- Behind the head the parse is the body step. -/
theorem parseResponse_head (b : Bytes) :
    parseResponse registry (r.head ++ b) =
      ⟨(BodyStep.apply ({}, r.message.toMessage) b).result,
        (2, ⟨{ r.message with toMessage := (BodyStep.apply ({}, r.message.toMessage) b).state.2 },
          (BodyStep.apply ({}, r.message.toMessage) b).state.1⟩),
        (BodyStep.apply ({}, r.message.toMessage) b).rest⟩ := by
  have hlong := r.versionLength_le
  rw [parseResponse_patient (by rw [List.length_append]; omega)]
  exact parse_behind_head patient_settles patient_resumes r.accepted_patient b

/-- **A part of a response** that holds the version makes the parser wait. -/
theorem part {t : Bytes} (ht : t <+: r.bytes) (hne : t ≠ r.bytes) (hlong : versionLength ≤ t.length)
    (hcut : ¬r.Cut t) :
    (parseResponse registry t).result = .Again ∧ (parseResponse registry t).state.2.NotCut := by
  rw [parseResponse_patient hlong]
  exact parse_part patient_settles patient_resumes r.accepted_patient r.declared ht hne
    fun b hb hc => hcut ⟨b, hb, hc⟩

/-- All of a response is a message. -/
theorem whole : (parseResponse registry r.bytes).result = .Done := by
  obtain ⟨m', rest, hbody⟩ := BodyText.whole r.declared
  rw [bytes, r.parseResponse_head, hbody]

/-- Behind a part that ends where the decoder of chunks goes wrong, either the call does not
wait or the next one throws. -/
theorem cut {t : Bytes} (ht : t <+: r.bytes) (hcut : r.Cut t) :
    (parseResponse registry t).result ≠ .Again ∨
      ∀ x ≠ [], ∃ e, (Work.parse registry ResponseLineStep.apply (parseResponse registry t).state
        ((parseResponse registry t).rest ++ x)).result = .thrown e := by
  obtain ⟨b, rfl, hb⟩ := hcut
  rw [r.parseResponse_head b]
  rcases BodyText.cut r.declared ((List.prefix_append_right_inj _).mp ht) hb with h | h
  · exact .inl h
  · refine .inr fun x hx => ?_
    obtain ⟨e, he⟩ := h x hx
    refine ⟨e, ?_⟩
    rw [Work.parse_eq registry 2 (by omega)]
    exact he

/-- The part of the response that holds the version, or nothing, and no cut of the decoder. -/
def WellCut (pieces : List Bytes) : Prop :=
  ∀ i, 0 < i → i < pieces.length →
    versionLength ≤ (pieces.take i).flatten.length ∧ ¬r.Cut (pieces.take i).flatten

end WellformedResponse

/-! ## Pieces -/

namespace ResponseParser

open Chunked.Decoder (goodResults)

variable {registry : Registry H}

/-- `feed` and `parse` with each of the pieces; `none` when the buffer refuses one of them. -/
def feedParse (registry : Registry H) :
    ParserBase H Unit → List Bytes → Option (List State × ParserBase H Unit)
  | p, [] => some ([], p)
  | p, piece :: pieces =>
    match p.feed piece with
    | none => none
    | some p =>
      let (result, p) := parse registry p
      (feedParse registry p pieces).map fun (results, p) => (result :: results, p)

/-- The parser has received the bytes `t` of a response, in pieces, and goes on like one that
has received them at once, as soon as it has those of the version. -/
structure Heard (registry : Registry H) (p : ParserBase H Unit) (t : Bytes) : Prop where
  bytes : p.buffer.bytes = t
  parse : ∀ z, versionLength ≤ (t ++ z).length → Work.parse registry ResponseLineStep.apply
    (p.currentStep, p.toWork) (p.buffer.unread ++ z) = parseResponse registry (t ++ z)
  short : ∀ z, (t ++ z).length < versionLength → (Work.parse registry ResponseLineStep.apply
    (p.currentStep, p.toWork) (p.buffer.unread ++ z)).result ≠ .Again

namespace Heard

variable {p : ParserBase H Unit} {t : Bytes}

theorem new (registry : Registry H) (maxDataSize : Nat) :
    Heard registry (ResponseParser.new maxDataSize) [] where
  bytes := rfl
  parse _ _ := rfl
  short z hz := by
    have hthrown : (parseResponse registry ([] ++ z)).result =
        .thrown (raise "Encountered invalid HTTP version" .Bad_Request) := parseResponse_short hz
    intro hagain
    rw [parseResponse, List.nil_append] at hthrown
    simp only [ResponseParser.new, ArrayStreamBuf.new, List.nil_append] at hagain
    rw [hthrown] at hagain
    cases hagain

/-- A piece that is not refused. -/
theorem feed (h : Heard registry p t) {x : Bytes} (hfit : (t ++ x).length ≤ p.buffer.maxSize) :
    ∃ buffer, p.feed x = some { p with buffer } ∧ buffer.bytes = t ++ x ∧
      buffer.maxSize = p.buffer.maxSize ∧ buffer.unread = p.buffer.unread ++ x := by
  let b : ArrayStreamBuf := { p.buffer with unread := p.buffer.unread ++ x }
  have hfeed : p.buffer.feed x = some b := by
    refine ArrayStreamBuf.feed_eq_some.mpr ⟨?_, rfl⟩
    rw [h.bytes, ← List.length_append]
    exact hfit
  refine ⟨b, by rw [ParserBase.feed, hfeed]; rfl, ?_, rfl, rfl⟩
  show p.buffer.read ++ (p.buffer.unread ++ x) = t ++ x
  rw [← List.append_assoc, ← h.bytes, ArrayStreamBuf.bytes]

end Heard

/-- The parser that has received `bytes` and made of them what a new parser makes of them at
once. -/
def received (registry : Registry H) (maxDataSize : Nat) (bytes : Bytes) : ParserBase H Unit where
  toWork := (parseResponse registry bytes).state.2
  currentStep := (parseResponse registry bytes).state.1
  buffer := (⟨[], bytes, maxDataSize⟩ : ArrayStreamBuf).advanceTo
    (parseResponse registry bytes).rest

variable {p : ParserBase H Unit} {t : Bytes}

/-- One more piece, behind the version. -/
theorem feedParse_cons (h : Heard registry p t) {x : Bytes}
    (hlong : versionLength ≤ (t ++ x).length) (hfit : (t ++ x).length ≤ p.buffer.maxSize)
    (xs : List Bytes) :
    feedParse registry p (x :: xs) =
      (feedParse registry (received registry p.buffer.maxSize (t ++ x)) xs).map fun (results, q) =>
        ((parseResponse registry (t ++ x)).result :: results, q) := by
  obtain ⟨buffer, hfeed, hbytes, hmax, hunread⟩ := h.feed hfit
  have hout : ParserBase.outcome registry ResponseLineStep.apply { p with buffer } =
      parseResponse registry (t ++ x) := by
    rw [ParserBase.outcome, hunread]
    exact h.parse x hlong
  have hrest : (parseResponse registry (t ++ x)).rest <:+ buffer.unread := by
    rw [← hout]
    exact Work.forward registry ResponseLineStep.forward _ _
  rw [feedParse, hfeed]
  simp only [parse, ParserBase.parse, hout, ArrayStreamBuf.advanceTo_eq buffer hrest, hbytes, hmax]
  rfl

/-- The first result is that of the parse of what is unread and the first piece. -/
theorem feedParse_head {x : Bytes} {xs : List Bytes} {results : List State}
    {q : ParserBase H Unit} (h : feedParse registry p (x :: xs) = some (results, q)) :
    results.head? = some (Work.parse registry ResponseLineStep.apply (p.currentStep, p.toWork)
      (p.buffer.unread ++ x)).result := by
  cases hfeed : p.buffer.feed x with
  | none => simp [feedParse, ParserBase.feed, hfeed] at h
  | some buffer =>
    obtain ⟨-, rfl⟩ := ArrayStreamBuf.feed_eq_some.mp hfeed
    simp only [feedParse, ParserBase.feed, hfeed, Option.map_some] at h
    obtain ⟨⟨results', q'⟩, -, he⟩ := Option.map_eq_some_iff.mp h
    obtain ⟨rfl, -⟩ := Prod.mk.inj he
    rfl

/-- A part of a response that makes the parser wait in a state from which it resumes. -/
theorem Heard.received (maxDataSize : Nat) (hlong : versionLength ≤ t.length)
    (hagain : (parseResponse registry t).result = .Again)
    (hcut : (parseResponse registry t).state.2.NotCut) :
    Heard registry (ResponseParser.received registry maxDataSize t) t where
  bytes := ArrayStreamBuf.advanceTo_bytes ⟨[], t, maxDataSize⟩
    (Work.forward registry ResponseLineStep.forward _ _)
  parse z _ := by
    have hpatient : parseResponse registry t =
        Work.parse registry patient (0, ⟨Response.new, {}⟩) t := parse_patient (fun _ => hlong) _
    have hmore : parseResponse registry (t ++ z) =
        Work.parse registry patient (0, ⟨Response.new, {}⟩) (t ++ z) :=
      parse_patient (fun _ => by rw [List.length_append]; omega) _
    have hres := Work.resumes registry patient_settles patient_resumes (0, ⟨Response.new, {}⟩) t
      (fun _ hc => nomatch hc) (by rw [← hpatient]; exact hagain) (by rw [← hpatient]; exact hcut) z
    rw [← hpatient, ← hmore] at hres
    rw [← hres]
    refine parse_patient (fun hk => ?_) _
    have hrest := parseResponse_line hk
    rw [ResponseParser.received, ArrayStreamBuf.advanceTo_unread, hrest, List.length_append]
    omega
  short z hz := by
    rw [List.length_append] at hz
    omega

/-- What has to hold behind each piece but the last, split off at the first piece. -/
theorem forall_cuts_cons (P : Bytes → Prop) (t x y : Bytes) (ys : List Bytes) :
    (∀ i, 0 < i → i < (x :: y :: ys).length → P (t ++ ((x :: y :: ys).take i).flatten)) ↔
      P (t ++ x) ∧
        ∀ i, 0 < i → i < (y :: ys).length → P ((t ++ x) ++ ((y :: ys).take i).flatten) := by
  constructor
  · intro h
    refine ⟨by simpa using h 1 (by omega) (by simp), fun i _ hi => ?_⟩
    have := h (i + 1) (by omega) (by simpa using hi)
    rwa [List.take_succ_cons, List.flatten_cons, ← List.append_assoc] at this
  · rintro ⟨hx, h⟩ i hpos hi
    cases i with
    | zero => omega
    | succ i =>
      rw [List.take_succ_cons, List.flatten_cons, ← List.append_assoc]
      cases i with
      | zero => simpa using hx
      | succ i => exact h (i + 1) (by omega) (by simpa using hi)

theorem goodResults_succ (n : Nat) : goodResults (n + 2) = .Again :: goodResults (n + 1) := rfl

/-- **The pieces behind what has been received.**  The results are as they should be exactly
when every cut is behind the version and not where the decoder of chunks goes wrong. -/
theorem feedParse_pieces (r : WellformedResponse registry) :
    ∀ (pieces : List Bytes) (p : ParserBase H Unit) (t : Bytes), Heard registry p t →
      pieces ≠ [] → (∀ x ∈ pieces, x ≠ []) → t ++ pieces.flatten = r.bytes →
      r.bytes.length ≤ p.buffer.maxSize →
      ((∀ i, 0 < i → i < pieces.length → versionLength ≤ (t ++ (pieces.take i).flatten).length ∧
          ¬r.Cut (t ++ (pieces.take i).flatten)) →
        feedParse registry p pieces =
          some (goodResults pieces.length, received registry p.buffer.maxSize r.bytes)) ∧
      ((∃ q, feedParse registry p pieces = some (goodResults pieces.length, q)) →
        ∀ i, 0 < i → i < pieces.length → versionLength ≤ (t ++ (pieces.take i).flatten).length ∧
          ¬r.Cut (t ++ (pieces.take i).flatten))
  | [], _, _, _, hpos, _, _, _ => absurd rfl hpos
  | [x], p, t, h, _, _, hbytes, hfit => by
    simp only [List.flatten_cons, List.flatten_nil, List.append_nil] at hbytes
    have hlong : versionLength ≤ (t ++ x).length := by
      have hhead := r.versionLength_le
      rw [hbytes, WellformedResponse.bytes, List.length_append]
      omega
    refine ⟨fun _ => ?_, fun _ i hpos hi => absurd hi (by simp only [List.length_singleton]; omega)⟩
    rw [feedParse_cons h hlong (by rw [hbytes]; exact hfit), hbytes, r.whole]
    rfl
  | x :: y :: ys, p, t, h, _, hne, hbytes, hfit => by
    have hpre : t ++ x <+: r.bytes := ⟨(y :: ys).flatten, by
      rw [List.append_assoc]; exact hbytes⟩
    have hproper : t ++ x ≠ r.bytes := by
      intro e
      rw [← e, List.flatten_cons, ← List.append_assoc] at hbytes
      have hnil : (y :: ys).flatten = [] := List.append_right_eq_self.mp hbytes
      rw [List.flatten_cons, List.append_eq_nil_iff] at hnil
      exact hne y (by simp) hnil.1
    have hfit' : (t ++ x).length ≤ p.buffer.maxSize := hpre.length_le.trans hfit
    rw [forall_cuts_cons fun s => versionLength ≤ s.length ∧ ¬r.Cut s]
    by_cases hlong : versionLength ≤ (t ++ x).length
    · have hcons := feedParse_cons h hlong hfit' (y :: ys)
      by_cases hcut : r.Cut (t ++ x)
      · refine ⟨fun hall => absurd hcut hall.1.2, ?_⟩
        rintro ⟨q, hq⟩
        exfalso
        rw [hcons] at hq
        obtain ⟨⟨results, q'⟩, hrest, he⟩ := Option.map_eq_some_iff.mp hq
        obtain ⟨hresults, -⟩ := Prod.mk.inj he
        rw [List.length_cons, List.length_cons, goodResults_succ] at hresults
        obtain ⟨hagain, rfl⟩ := List.cons.inj hresults
        rcases r.cut hpre hcut with hr | hr
        · exact hr hagain
        · -- the piece behind the cut makes the parser throw
          obtain ⟨e, he⟩ := hr y (hne y (by simp))
          have hhead := feedParse_head hrest
          rw [received, ArrayStreamBuf.advanceTo_unread, he] at hhead
          cases ys <;> cases hhead
      · obtain ⟨hagain, hnot⟩ := r.part hpre hproper hlong hcut
        have hheard := Heard.received p.buffer.maxSize hlong hagain hnot
        obtain ⟨hgood, hwell⟩ := feedParse_pieces r (y :: ys) _ (t ++ x) hheard (by simp)
          (fun z hz => hne z (List.mem_cons_of_mem x hz))
          (by rw [List.append_assoc]; exact hbytes) hfit
        refine ⟨fun hall => ?_, ?_⟩
        · rw [hcons, hgood hall.2, hagain]
          rfl
        · rintro ⟨q, hq⟩
          rw [hcons] at hq
          obtain ⟨⟨results, q'⟩, hrest, he⟩ := Option.map_eq_some_iff.mp hq
          obtain ⟨hresults, -⟩ := Prod.mk.inj he
          rw [List.length_cons, List.length_cons, goodResults_succ] at hresults
          obtain ⟨-, rfl⟩ := List.cons.inj hresults
          exact ⟨⟨hlong, hcut⟩, hwell ⟨q', hrest⟩⟩
    · refine ⟨fun hall => absurd hall.1.1 hlong, ?_⟩
      rintro ⟨q, hq⟩
      have hhead := feedParse_head hq
      rw [List.length_cons, List.length_cons, goodResults_succ, List.head?_cons,
        Option.some.injEq] at hhead
      exact absurd hhead.symm (h.short x (Nat.lt_of_not_le hlong))

/-- The response in pieces gives what it gives in one piece: one call with all of it is done,
every call before the last piece asks for more, the last one is done, and the version, the
code, the headers and the body are the same. -/
def AsInOnePiece (registry : Registry H) (maxDataSize : Nat) (pieces : List Bytes) : Prop :=
  ∃ whole p, feedParse registry (new maxDataSize) [pieces.flatten] = some ([.Done], whole) ∧
    feedParse registry (new maxDataSize) pieces =
      some (List.replicate (pieces.length - 1) .Again ++ [.Done], p) ∧
    p.message.version_ = whole.message.version_ ∧ p.message.code_ = whole.message.code_ ∧
    p.message.headers_ = whole.message.headers_ ∧ p.message.body_ = whole.message.body_

/-- **A response in pieces.**  It is parsed as in one piece exactly when every piece but the
last ends behind the version of the status line, and none ends between the CR and the LF
behind the data of a chunk or inside or in front of the CRLF that ends a chunked body. -/
theorem response_in_pieces (registry : Registry H) (maxDataSize : Nat)
    (r : WellformedResponse registry) (hfit : r.bytes.length ≤ maxDataSize) (pieces : List Bytes)
    (hne : ∀ piece ∈ pieces, piece ≠ []) (hbytes : pieces.flatten = r.bytes) :
    AsInOnePiece registry maxDataSize pieces ↔ r.WellCut pieces := by
  have hpos : pieces ≠ [] := by
    rintro rfl
    have hhead := r.versionLength_le
    have hlen := congrArg List.length hbytes
    simp only [List.flatten_nil, List.length_nil, WellformedResponse.bytes, List.length_append] at hlen
    exact absurd hhead (by rw [versionLength]; omega)
  have hone : feedParse registry (new maxDataSize) [pieces.flatten] =
      some ([.Done], received registry maxDataSize r.bytes) := by
    refine (feedParse_pieces r [pieces.flatten] (new maxDataSize) []
      (Heard.new registry maxDataSize) (by simp) ?_ (by simpa using hbytes) hfit).1 ?_
    · have hhead := r.versionLength_le
      simp only [List.mem_singleton, forall_eq, hbytes, WellformedResponse.bytes]
      intro hnil
      have hlen := congrArg List.length hnil
      rw [List.length_append, List.length_nil] at hlen
      exact absurd hhead (by rw [versionLength]; omega)
    · intro i hi hlt
      exact absurd hlt (by simp only [List.length_singleton]; omega)
  obtain ⟨hgood, hwell⟩ := feedParse_pieces r pieces (new maxDataSize) []
    (Heard.new registry maxDataSize) hpos hne hbytes hfit
  constructor
  · rintro ⟨-, p, -, hp, -⟩
    exact hwell ⟨p, hp⟩
  · intro hcuts
    exact ⟨_, _, hone, hgood hcuts, rfl, rfl, rfl, rfl⟩

/-! ### Cut in the version, and behind it -/

def okResponse : WellformedResponse Registry.basic where
  head := lit "HTTP/1.1 200 OK\r\nContent-Length: 5\r\n\r\n"
  message :=
    { code_ := ⟨200⟩
      headers_ := ⟨[(lit "content-length", .ContentLength 5)],
        [(lit "content-length", ⟨lit "Content-Length", lit "5"⟩)]⟩
      own := () }
  body := .length (lit "hello")
  accepted := rfl
  declared := ⟨5, rfl, rfl, rfl⟩

theorem okResponse_pieces : AsInOnePiece Registry.basic 4096
    [lit "HTTP/1.1 2", lit "00 OK\r", lit "\nContent-Length: 5\r\n\r\nhe", lit "llo"] :=
  (response_in_pieces Registry.basic 4096 okResponse (by decide)
    [lit "HTTP/1.1 2", lit "00 OK\r", lit "\nContent-Length: 5\r\n\r\nhe", lit "llo"]
    (by decide) (by decide)).mpr (by
      intro i hpos hi
      refine ⟨?_, fun ⟨_, _, hc⟩ => hc⟩
      simp only [List.length_cons, List.length_nil] at hi
      obtain rfl | rfl | rfl : i = 1 ∨ i = 2 ∨ i = 3 := by omega
      all_goals decide)

theorem okResponse_short :
    [lit "HTTP/1", lit ".1 200 OK\r\nContent-Length: 5\r\n\r\nhello"].flatten = okResponse.bytes ∧
      (feedParse Registry.basic (new 4096) [okResponse.bytes]).map Prod.fst = some [.Done] ∧
      ¬AsInOnePiece Registry.basic 4096
        [lit "HTTP/1", lit ".1 200 OK\r\nContent-Length: 5\r\n\r\nhello"] := by
  refine ⟨by decide, by decide, ?_⟩
  rintro ⟨-, p, -, hp, -⟩
  have hthrown : (feedParse Registry.basic (new 4096)
      [lit "HTTP/1", lit ".1 200 OK\r\nContent-Length: 5\r\n\r\nhello"]).map
        (fun o => o.1.head?) =
      some (some (.thrown (raise "Encountered invalid HTTP version" .Bad_Request))) := by
    decide
  rw [hp] at hthrown
  cases hthrown

end ResponseParser

end Pistache.Http
