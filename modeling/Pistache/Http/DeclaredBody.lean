import Pistache.Http.Handler

/-!
# Bodies of declared length on a connection

The bytes of a connection have positions.  Beside the parser a `Track` records, as ghost state,
the messages whose accepted head declares a body of a length, with the positions that the body
takes, and the requests handed to `onRequest`, with the positions of the bytes they are made of.

* `Inv.step` — one call of `onInput` that gives no declared body up before its end keeps the
  requests and the bodies of other messages apart.
* `declaredBody` — so does a run of such calls.
-/

set_option autoImplicit false

namespace Pistache.Http

open Resumable

variable {H : Type}

/-- A body that an accepted head declares: the number of its message on the connection, the
position behind the head, and the length. -/
structure Declared where
  message : Nat
  start : Nat
  length : UInt64
  deriving DecidableEq

/-- The end of a declared body. -/
def Declared.stop (d : Declared) : Nat := d.start + d.length.toNat

/-- A request handed to `onRequest`: the number of its message, and the positions of its bytes. -/
structure Served where
  message : Nat
  start : Nat
  stop : Nat
  deriving DecidableEq

/-- A connection: the parser, the number of bytes received, the position of the first byte in
the buffer, the number of the message that begins there, and what `bytesRead` was when it
began. -/
structure Track (H : Type) where
  parser : ParserBase H RequestLine
  received : Nat := 0
  base : Nat := 0
  message : Nat := 0
  stale : UInt64 := 0
  declared : List Declared := []
  served : List Served := []

namespace Track

variable (handler : Handler H)

def new (maxSize : Nat) : Track H := { parser := RequestParser.new maxSize }

/-- The head behind a segment that has been fed; it has been accepted when the result is
`Next`. -/
def head (p : ParserBase H RequestLine) : Out State (Nat × Request H) UInt8 :=
  parseHead handler.registry RequestLineStep.apply (p.currentStep, p.message) p.buffer.unread

/-- The body declared by the head that is accepted in this call, if there is one. -/
def accepted (t : Track H) (input : Bytes) : List Declared :=
  match t.parser.feed input with
  | none => []
  | some p =>
    if p.currentStep < 2 ∧ (head handler p).result = .Next then
      match (head handler p).state.2.headers_.contentLength with
      | none => []
      | some length =>
        [⟨t.message, t.base + (p.buffer.bytes.length - (head handler p).rest.length), length⟩]
    else []

/-- Where the cursor stands in the buffer behind this call. -/
def cursor (t : Track H) (input : Bytes) : Nat :=
  match t.parser.feed input with
  | none => 0
  | some p =>
    p.buffer.bytes.length - (p.outcome handler.registry RequestLineStep.apply).rest.length

/-- `onInput` with a segment.  Something happens exactly when the parser is reset, and the next
segment then begins a new message. -/
def step (t : Track H) (input : Bytes) : Track H :=
  let received := t.received + input.length
  let declared := t.accepted handler input ++ t.declared
  match handler.onInput t.parser input with
  | ([], parser) => { t with parser, received, declared }
  | (event :: events, parser) =>
    { parser, received, declared
      base := received
      message := t.message + 1
      stale := parser.bodyStep.bytesRead
      served := ((requests (event :: events)).map fun _ =>
        ⟨t.message, t.base, t.base + t.cursor handler input⟩) ++ t.served }

def run : Track H → List Bytes → Track H
  | t, [] => t
  | t, input :: inputs => run (t.step handler input) inputs

/-- No byte of a request lies inside the declared body of another message. -/
def Apart (t : Track H) : Prop :=
  ∀ d ∈ t.declared, ∀ r ∈ t.served, d.message ≠ r.message →
    ∀ i, r.start ≤ i → i < r.stop → ¬(d.start ≤ i ∧ i < d.stop)

/-- The call does not give up a declared body before its end.  A segment that is refused
reaches that end; so does one behind which the head also has a transfer encoding; and where
bytes of an earlier body are still counted, the bytes received do not end among as many bytes
at the end of the body. -/
def Finishes (t : Track H) (input : Bytes) : Prop :=
  match t.parser.feed input with
  | none => ∀ d ∈ t.declared, d.message = t.message → d.stop ≤ t.received + input.length
  | some p => ∀ d ∈ t.accepted handler input ++ t.declared, d.message = t.message →
      d.stop ≤ t.received + input.length ∨
        ((head handler p).state.2.headers_.transferEncoding = none ∧
          t.received + input.length - d.start < (d.length - t.stale).toNat)

/-- So do all calls of a run. -/
def FinishesAll : Track H → List Bytes → Prop
  | _, [] => True
  | t, input :: inputs => t.Finishes handler input ∧ FinishesAll (t.step handler input) inputs

instance (t : Track H) (input : Bytes) : Decidable (t.Finishes handler input) :=
  match h : t.parser.feed input with
  | none => decidable_of_iff
      (∀ d ∈ t.declared, d.message = t.message → d.stop ≤ t.received + input.length)
      (by rw [Finishes, h])
  | some p => decidable_of_iff
      (∀ d ∈ t.accepted handler input ++ t.declared, d.message = t.message →
        d.stop ≤ t.received + input.length ∨
          ((head handler p).state.2.headers_.transferEncoding = none ∧
            t.received + input.length - d.start < (d.length - t.stale).toNat))
      (by rw [Finishes, h])

instance decidableFinishesAll : ∀ (t : Track H) (inputs : List Bytes),
    Decidable (t.FinishesAll handler inputs)
  | _, [] => .isTrue trivial
  | t, input :: inputs =>
    @instDecidableAnd _ _ _ (decidableFinishesAll (t.step handler input) inputs)

end Track

/-! ## The invariant -/

namespace Track

/-- Where the parser stands in the message that begins at `base`: in its head, in its body of
declared length of which `n` bytes have been read, or in a body without a length. -/
inductive Phase (t : Track H) : Prop
  | head : t.parser.currentStep < 2 → (∀ d ∈ t.declared, d.message ≠ t.message) →
      t.parser.bodyStep.bytesRead = t.stale → Phase t
  | length (d : Declared) (n : Nat) : t.parser.currentStep = 2 → d ∈ t.declared →
      d.message = t.message → (∀ d' ∈ t.declared, d'.message = t.message → d' = d) →
      t.parser.message.headers_.contentLength = some d.length →
      t.parser.message.headers_.transferEncoding = none → t.parser.buffer.unread = [] →
      d.start + n = t.received →
      n < (d.length - t.stale).toNat →
      t.parser.bodyStep.bytesRead = t.stale + UInt64.ofNat n → Phase t
  | other : t.parser.currentStep = 2 → (∀ d ∈ t.declared, d.message ≠ t.message) →
      t.parser.message.headers_.contentLength = none → Phase t

/-- The bodies of the messages before, and the requests, end in front of the message that is
being read, and its own body lies behind its beginning. -/
structure Inv (t : Track H) : Prop where
  bytes : t.base + t.parser.buffer.bytes.length = t.received
  message_le : ∀ d ∈ t.declared, d.message ≤ t.message
  past : ∀ d ∈ t.declared, d.message < t.message → d.stop ≤ t.base
  current : ∀ d ∈ t.declared, d.message = t.message → t.base ≤ d.start
  served : ∀ r ∈ t.served, r.message < t.message ∧ r.stop ≤ t.base
  apart : t.Apart
  phase : t.Phase

theorem inv_new (maxSize : Nat) : Inv (new maxSize : Track H) where
  bytes := rfl
  message_le _ hd := nomatch hd
  past _ hd := nomatch hd
  current _ hd := nomatch hd
  served _ hr := nomatch hr
  apart _ hd := nomatch hd
  phase := .head Nat.two_pos (fun _ hd => nomatch hd) rfl

variable {t t' : Track H}

theorem Phase.step_le (h : t.Phase) : t.parser.currentStep ≤ 2 := by
  cases h <;> omega

namespace Inv

/-- What a call adds belongs to the message that is being read, and begins with it or behind. -/
structure Extends (t t' : Track H) : Prop where
  received : t.received ≤ t'.received
  declared : ∀ d ∈ t'.declared, d ∈ t.declared ∨ d.message = t.message ∧ t.base ≤ d.start
  served : ∀ r ∈ t'.served,
    r ∈ t.served ∨ r.message = t.message ∧ t.base ≤ r.start ∧ r.stop ≤ t'.received

theorem base_le (h : t.Inv) : t.base ≤ t.received := by
  have := h.bytes
  omega

theorem extends_apart (h : t.Inv) (hext : Extends t t') : t'.Apart := by
  intro d hd r hr hne i hri hir ⟨hdi, hid⟩
  rcases hext.declared d hd with hd | ⟨hdm, hds⟩
  · rcases hext.served r hr with hr | ⟨hrm, hrs, -⟩
    · exact h.apart d hd r hr hne i hri hir ⟨hdi, hid⟩
    · -- a body of a message before
      have := h.past d hd (Nat.lt_of_le_of_ne (h.message_le d hd) (by rw [← hrm]; exact hne))
      omega
  · rcases hext.served r hr with hr | ⟨hrm, -⟩
    · -- a request made of a message before
      have := (h.served r hr).2
      omega
    · exact hne (hdm.trans hrm.symm)

/-- The message is read on. -/
theorem wait (h : t.Inv) (hext : Extends t t') (hmessage : t'.message = t.message)
    (hbase : t'.base = t.base) (hserved : t'.served = t.served)
    (hbytes : t'.base + t'.parser.buffer.bytes.length = t'.received) (hphase : t'.Phase) :
    t'.Inv where
  bytes := hbytes
  message_le d hd := by
    rcases hext.declared d hd with hd | ⟨hdm, -⟩
    · rw [hmessage]; exact h.message_le d hd
    · omega
  past d hd hlt := by
    rcases hext.declared d hd with hd | ⟨hdm, -⟩
    · rw [hbase]; exact h.past d hd (by omega)
    · omega
  current d hd he := by
    rcases hext.declared d hd with hd | ⟨-, hds⟩
    · rw [hbase]; exact h.current d hd (by omega)
    · omega
  served r hr := by
    rw [hmessage, hbase]
    exact h.served r (hserved ▸ hr)
  apart := h.extends_apart hext
  phase := hphase

/-- The parser is reset, and what the message has declared has been received. -/
theorem renew (h : t.Inv) (hext : Extends t t') (hmessage : t'.message = t.message + 1)
    (hbase : t'.base = t'.received) (hbytes : t'.parser.buffer.bytes = [])
    (hstep : t'.parser.currentStep = 0) (hstale : t'.parser.bodyStep.bytesRead = t'.stale)
    (hstop : ∀ d ∈ t'.declared, d.message = t.message → d.stop ≤ t'.received) : t'.Inv where
  bytes := by rw [hbytes, hbase]; rfl
  message_le d hd := by
    rcases hext.declared d hd with hd | ⟨hdm, -⟩
    · have := h.message_le d hd
      omega
    · omega
  past d hd hlt := by
    rw [hbase]
    by_cases he : d.message = t.message
    · exact hstop d hd he
    · rcases hext.declared d hd with hd | ⟨hdm, -⟩
      · exact (h.past d hd (by omega)).trans (h.base_le.trans hext.received)
      · exact absurd hdm he
  current d hd he := by
    rcases hext.declared d hd with hd | ⟨hdm, -⟩
    · have := h.message_le d hd
      omega
    · omega
  served r hr := by
    rcases hext.served r hr with hr | ⟨hrm, -, hrs⟩
    · obtain ⟨hm, hs⟩ := h.served r hr
      refine ⟨by omega, hs.trans ?_⟩
      rw [hbase]
      exact h.base_le.trans hext.received
    · exact ⟨by omega, by omega⟩
  apart := h.extends_apart hext
  phase := by
    refine .head (by omega) (fun d hd he => ?_) hstale
    rcases hext.declared d hd with hd | ⟨hdm, -⟩
    · have := h.message_le d hd
      omega
    · omega

end Inv

/-! ## Reading on -/

section Fed

variable {handler : Handler H} {input : Bytes} {p : ParserBase H RequestLine}

/-- A segment that is fed goes behind the bytes in the buffer, and nothing else changes. -/
theorem feed_some (h : t.parser.feed input = some p) :
    p.toWork = t.parser.toWork ∧ p.currentStep = t.parser.currentStep ∧
      p.buffer.unread = t.parser.buffer.unread ++ input ∧
      p.buffer.bytes.length = t.parser.buffer.bytes.length + input.length := by
  obtain ⟨buffer, hbuffer, rfl⟩ := Option.map_eq_some_iff.mp h
  obtain ⟨-, rfl⟩ := ArrayStreamBuf.feed_eq_some.mp hbuffer
  refine ⟨rfl, rfl, rfl, ?_⟩
  simp only [ArrayStreamBuf.bytes, List.length_append]
  omega

theorem head_forward (handler : Handler H) (p : ParserBase H RequestLine) :
    (head handler p).rest.length ≤ p.buffer.bytes.length := by
  have := (Http.head_forward handler.registry RequestLineStep.forward
    (p.currentStep, p.message) p.buffer.unread).length_le
  simp only [ArrayStreamBuf.bytes, List.length_append]
  exact Nat.le_add_left_of_le this

/-- The three ways to stand in a message behind a segment that has been fed: in its head,
behind a head without a length, and behind one with a length, `k` bytes of the body having been
read before. -/
theorem Inv.reading (h : t.Inv) (hfeed : t.parser.feed input = some p) :
    ((head handler p).result ≠ .Next ∧ p.currentStep < 2 ∧ p.bodyStep.bytesRead = t.stale ∧
      ∀ d ∈ t.accepted handler input ++ t.declared, d.message ≠ t.message) ∨
    ((head handler p).result = .Next ∧
      (head handler p).state.2.headers_.contentLength = none ∧
      ∀ d ∈ t.accepted handler input ++ t.declared, d.message ≠ t.message) ∨
    ((head handler p).result = .Next ∧ ∃ d k, d ∈ t.accepted handler input ++ t.declared ∧
      d.message = t.message ∧
      (∀ d' ∈ t.accepted handler input ++ t.declared, d'.message = t.message → d' = d) ∧
      (head handler p).state.2.headers_.contentLength = some d.length ∧
      d.start + k + (head handler p).rest.length = t.received + input.length ∧
      (k = 0 ∨ k < (d.length - t.stale).toNat) ∧
      p.bodyStep.bytesRead = t.stale + UInt64.ofNat k) := by
  obtain ⟨hwork, hstep, hunread, hlen⟩ := feed_some hfeed
  have hb : p.bodyStep = t.parser.bodyStep := by rw [hwork]
  have hbytes := h.bytes
  have hrest := head_forward handler p
  have hbehind : p.currentStep = 2 → head handler p = ⟨.Next, (2, p.message), p.buffer.unread⟩ ∧
      t.accepted handler input = [] := fun h2 => by
    refine ⟨by rw [head, h2]; rfl, ?_⟩
    simp only [accepted, hfeed]
    rw [if_neg (by omega)]
  cases h.phase with
  | head hlt hnone hstale =>
    by_cases hr : (head handler p).result = .Next
    · have hacc : p.currentStep < 2 ∧ (head handler p).result = .Next := ⟨by omega, hr⟩
      cases hcl : (head handler p).state.2.headers_.contentLength with
      | none =>
        refine .inr (.inl ⟨hr, rfl, ?_⟩)
        simpa only [accepted, hfeed, if_pos hacc, hcl, List.nil_append] using hnone
      | some length =>
        refine .inr (.inr ⟨hr, ⟨t.message,
          t.base + (p.buffer.bytes.length - (head handler p).rest.length), length⟩, 0, ?_⟩)
        simp only [accepted, hfeed, if_pos hacc, hcl, List.singleton_append, List.mem_cons,
          true_or, true_and]
        refine ⟨?_, by omega, ?_⟩
        · rintro d' (rfl | hd') he
          · rfl
          · exact absurd he (hnone d' hd')
        · rw [hb, hstale]
          exact (UInt64.add_zero _).symm
    · refine .inl ⟨hr, by omega, by rw [hb]; exact hstale, ?_⟩
      simpa only [accepted, hfeed, if_neg (not_and_of_not_right _ hr), List.nil_append] using hnone
  | other h2 hnone hlength =>
    obtain ⟨hhead, hacc⟩ := hbehind (by omega)
    rw [hhead, hacc]
    refine .inr (.inl ⟨rfl, ?_, by simpa using hnone⟩)
    rw [hwork]
    exact hlength
  | length d n h2 hd hdm huniq hlength hte hempty hn hlt hread =>
    obtain ⟨hhead, hacc⟩ := hbehind (by omega)
    rw [hhead, hacc, hunread, hempty]
    refine .inr (.inr ⟨rfl, d, n, by simpa using hd, hdm, by simpa using huniq, ?_, ?_, .inr hlt, ?_⟩)
    · rw [hwork]
      exact hlength
    · rw [List.nil_append, hn]
    · rw [hb]
      exact hread

/-- The body step behind `k` bytes of the body: it waits while bytes are missing, as it counts
them. -/
theorem apply_length {m : Message H} {n stale : UInt64} {b : BodyStep} {k : Nat}
    (hlength : m.headers_.contentLength = some n) (hte : m.headers_.transferEncoding = none)
    (hk : k = 0 ∨ k < (n - stale).toNat) (hread : b.bytesRead = stale + UInt64.ofNat k)
    (xs : Bytes) :
    (k + xs.length < (n - stale).toNat ∧ BodyStep.apply (b, m) xs =
      ⟨.Again, ({ b with bytesRead := stale + UInt64.ofNat (k + xs.length) }, m.append xs), []⟩) ∨
    ((n - stale).toNat ≤ k + xs.length ∧ (BodyStep.apply (b, m) xs).result = .Done) := by
  have hmissing : (BodyStep.missing n b).toNat = (n - stale).toNat - k := by
    rcases hk with rfl | hk
    · rw [BodyStep.missing, hread, Nat.sub_zero, show UInt64.ofNat 0 = 0 from rfl, UInt64.add_zero]
    · have := @BodyStep.missing_add n { bytesRead := stale } k hk
      rw [BodyStep.missing, hread]
      exact this
  simp only [BodyStep.apply, hlength, hte]
  rw [BodyStep.parseContentLength_eq, hmissing]
  by_cases hlt : xs.length < (n - stale).toNat - k
  · refine .inl ⟨by omega, ?_⟩
    rw [if_pos hlt, hread, UInt64.add_assoc, ← UInt64.ofNat_add]
  · refine .inr ⟨by omega, ?_⟩
    rw [if_neg hlt]

/-- The outcome of a call, by the head and the body step. -/
theorem outcome_eq (handler : Handler H) (hk : p.currentStep ≤ 2) :
    p.outcome handler.registry RequestLineStep.apply =
      if (head handler p).result = .Next then
        let o := head handler p
        let body := BodyStep.apply (p.bodyStep, o.state.2.toMessage) o.rest
        ⟨body.result,
          (o.state.1, ⟨{ o.state.2 with toMessage := body.state.2 }, body.state.1⟩), body.rest⟩
      else
        ⟨(head handler p).result,
          ((head handler p).state.1, ⟨(head handler p).state.2, p.bodyStep⟩),
          (head handler p).rest⟩ :=
  Work.parse_eq handler.registry p.currentStep hk p.message p.bodyStep p.buffer.unread

theorem head_step (hk : p.currentStep ≤ 2) (hr : (head handler p).result = .Next) :
    (head handler p).state.1 = 2 :=
  (parseHead_step_le handler.registry hk p.message p.buffer.unread).2 hr

theorem head_waits_step (hk : p.currentStep < 2) (hr : (head handler p).result ≠ .Next) :
    (head handler p).state.1 < 2 := by
  revert hr
  unfold head parseHead runChain
  match p.currentStep, hk with
  | 0, _ =>
    simp only [headSteps, List.drop_zero, chain]
    repeat' split
    all_goals simp_all
  | 1, _ =>
    simp only [headSteps, List.drop_succ_cons, List.drop_zero, chain]
    repeat' split
    all_goals simp_all

theorem accepted_message (t : Track H) (input : Bytes) {d : Declared}
    (hd : d ∈ t.accepted handler input) : d.message = t.message ∧ t.base ≤ d.start := by
  unfold accepted at hd
  split at hd
  · cases hd
  · split at hd
    · split at hd
      · cases hd
      · obtain rfl := List.mem_singleton.mp hd
        exact ⟨rfl, Nat.le_add_right _ _⟩
    · cases hd

/-! ## One step and a run -/

theorem step_waits {q : ParserBase H RequestLine} (h : handler.onInput t.parser input = ([], q)) :
    t.step handler input =
      { t with parser := q, received := t.received + input.length,
               declared := t.accepted handler input ++ t.declared } := by
  simp only [step, h]

theorem step_resets {q : ParserBase H RequestLine} {event : Event H} {events : List (Event H)}
    (h : handler.onInput t.parser input = (event :: events, q)) :
    t.step handler input =
      { parser := q, received := t.received + input.length, base := t.received + input.length
        message := t.message + 1, stale := q.bodyStep.bytesRead
        declared := t.accepted handler input ++ t.declared
        served := ((requests (event :: events)).map fun _ =>
          ⟨t.message, t.base, t.base + t.cursor handler input⟩) ++ t.served } := by
  simp only [step, h]

theorem extends_declared (t : Track H) (input : Bytes) :
    ∀ d ∈ t.accepted handler input ++ t.declared,
      d ∈ t.declared ∨ d.message = t.message ∧ t.base ≤ d.start := by
  intro d hd
  rcases List.mem_append.mp hd with hd | hd
  · exact .inr (accepted_message t input hd)
  · exact .inl hd

/-- A call that resets the parser, when what the message has declared has been received. -/
theorem Inv.step_resets (h : t.Inv) {q : ParserBase H RequestLine} {event : Event H}
    {events : List (Event H)}
    (honInput : handler.onInput t.parser input = (event :: events, RequestParser.reset q))
    (hcursor : t.base + t.cursor handler input ≤ t.received + input.length)
    (hstop : ∀ d ∈ t.accepted handler input ++ t.declared, d.message = t.message →
      d.stop ≤ t.received + input.length) : (t.step handler input).Inv := by
  rw [Track.step_resets honInput]
  refine h.renew ⟨Nat.le_add_right _ _, extends_declared t input, fun r hr => ?_⟩ rfl rfl rfl rfl
    rfl hstop
  rcases List.mem_append.mp hr with hr | hr
  · obtain ⟨_, -, rfl⟩ := List.mem_map.mp hr
    exact .inr ⟨rfl, Nat.le_refl _, hcursor⟩
  · exact .inl hr

/-- A call behind which the parser waits. -/
theorem Inv.step_waits (h : t.Inv) (hfeed : t.parser.feed input = some p)
    (hagain : (p.outcome handler.registry RequestLineStep.apply).result = .Again ∨
      (p.outcome handler.registry RequestLineStep.apply).result = .Next)
    (honInput : handler.onInput t.parser input = ([], (RequestParser.parse handler.registry p).2)) :
    (t.step handler input).Inv := by
  obtain ⟨-, hstep, -, hlen⟩ := feed_some hfeed
  have hk : p.currentStep ≤ 2 := by
    rw [hstep]
    exact h.phase.step_le
  have hout := outcome_eq handler hk
  rw [Track.step_waits honInput]
  refine h.wait ⟨Nat.le_add_right _ _, extends_declared t input, fun r hr => .inl hr⟩ rfl rfl rfl
    ?_ ?_
  · have := h.bytes
    simp only [parse_bytes]
    omega
  rcases h.reading hfeed with ⟨hr, hlt, hstale, hnone⟩ | ⟨hr, hlength, hnone⟩ |
    ⟨hr, d, k, hd, hdm, huniq, hlength, hstart, hread, hcount⟩
  · -- in the head
    rw [if_neg hr] at hout
    refine .head ?_ hnone ?_
    · change (p.outcome handler.registry RequestLineStep.apply).state.1 < 2
      rw [hout]
      exact head_waits_step hlt hr
    · change (p.outcome handler.registry RequestLineStep.apply).state.2.bodyStep.bytesRead = t.stale
      rw [hout]
      exact hstale
  · -- in a body without a length
    rw [if_pos hr] at hout
    refine .other ?_ hnone ?_
    · change (p.outcome handler.registry RequestLineStep.apply).state.1 = 2
      rw [hout]
      exact head_step hk hr
    · change (p.outcome handler.registry
        RequestLineStep.apply).state.2.message.headers_.contentLength = none
      rw [hout]
      dsimp only
      rw [BodyStep.apply_headers]
      exact hlength
  · -- in a body of declared length
    rw [if_pos hr] at hout
    cases hte : (head handler p).state.2.headers_.transferEncoding with
    | some te =>
      have hthrown : (BodyStep.apply (p.bodyStep, (head handler p).state.2.toMessage)
          (head handler p).rest).result = .thrown (raise
            "Got mutually exclusive ContentLength and TransferEncoding header" .Bad_Request) := by
        simp only [BodyStep.apply, hlength, hte]
      rw [hout] at hagain
      dsimp only at hagain
      rw [hthrown] at hagain
      rcases hagain with hagain | hagain <;> cases hagain
    | none =>
      rcases apply_length hlength hte hread hcount (head handler p).rest with
        ⟨hlt, happly⟩ | ⟨-, hdone⟩
      · dsimp only at hout
        rw [happly] at hout
        refine .length d (k + (head handler p).rest.length) ?_ hd hdm huniq ?_ ?_ ?_ ?_ hlt ?_
        · change (p.outcome handler.registry RequestLineStep.apply).state.1 = 2
          rw [hout]
          exact head_step hk hr
        · change (p.outcome handler.registry
            RequestLineStep.apply).state.2.message.headers_.contentLength = _
          rw [hout]
          exact hlength
        · change (p.outcome handler.registry
            RequestLineStep.apply).state.2.message.headers_.transferEncoding = _
          rw [hout]
          exact hte
        · change (p.outcome handler.registry RequestLineStep.apply).rest = []
          rw [hout]
        · change d.start + (k + (head handler p).rest.length) = t.received + input.length
          omega
        · change (p.outcome handler.registry
            RequestLineStep.apply).state.2.bodyStep.bytesRead = _
          rw [hout]
      · rw [hout] at hagain
        dsimp only at hagain
        rw [hdone] at hagain
        rcases hagain with hagain | hagain <;> cases hagain

/-- **One call** that gives no declared body up before its end. -/
theorem Inv.step (h : t.Inv) (hfinishes : t.Finishes handler input) :
    (t.step handler input).Inv := by
  cases hfeed : t.parser.feed input with
  | none =>
    obtain ⟨event, honInput, -⟩ := onInput_refused handler hfeed
    refine h.step_resets honInput ?_ fun d hd he => ?_
    · simp only [cursor, hfeed]
      exact h.base_le.trans (Nat.le_add_right _ _)
    · simp only [Finishes, hfeed] at hfinishes
      simp only [accepted, hfeed, List.nil_append] at hd
      exact hfinishes d hd he
  | some p =>
    obtain ⟨-, hstep, -, hlen⟩ := feed_some hfeed
    have hk : p.currentStep ≤ 2 := by
      rw [hstep]
      exact h.phase.step_le
    rcases onInput_fed handler hfeed with ⟨hagain, honInput⟩ |
      ⟨hnot, event, events, honInput⟩
    · exact h.step_waits hfeed hagain honInput
    · refine h.step_resets honInput ?_ fun d hd he => ?_
      · have := h.bytes
        simp only [cursor, hfeed]
        omega
      · simp only [Finishes, hfeed] at hfinishes
        refine (hfinishes d hd he).resolve_right fun ⟨hte, hlt⟩ => ?_
        -- the body step would have waited
        rcases h.reading hfeed with ⟨-, -, -, hnone⟩ | ⟨-, -, hnone⟩ |
          ⟨hr, d', k, hd', hdm, huniq, hlength, hstart, hread, hcount⟩
        · exact hnone d hd he
        · exact hnone d hd he
        · obtain rfl := huniq d hd he
          rcases apply_length hlength hte hread hcount (head handler p).rest with
            ⟨-, happly⟩ | ⟨hle, -⟩
          · refine hnot ?_
            rw [outcome_eq handler hk, if_pos hr]
            dsimp only
            rw [happly]
          · omega

end Fed

variable (handler : Handler H)

theorem Inv.run : ∀ (inputs : List Bytes) {t : Track H}, t.Inv → t.FinishesAll handler inputs →
    (t.run handler inputs).Inv
  | [], _, h, _ => h
  | _ :: inputs, _, h, ⟨hfinishes, hrest⟩ => Inv.run inputs (h.step hfinishes) hrest

end Track

/-- **Declared bodies.** On a connection on which no call gives a declared body up before its
end, no request is made of bytes inside the declared body of another message. -/
theorem declaredBody (handler : Handler H) (maxSize : Nat) (inputs : List Bytes)
    (h : (Track.new maxSize).FinishesAll handler inputs) :
    ((Track.new maxSize).run handler inputs).Apart :=
  (Track.Inv.run handler inputs (Track.inv_new maxSize) h).apart

/-- A body in two segments, and a request behind it. -/
theorem declaredBody_then_request :
    ((Track.new 64).run ⟨Registry.basic, fun _ => none⟩
      [lit "POST / HTTP/1.1\r\nContent-Length: 30\r\n\r\nabc",
        lit "xxxxxxxxxxxxxxxxxxxxxxxxxxx",
        lit "GET / HTTP/1.1\r\n\r\n"]).Apart :=
  declaredBody ⟨Registry.basic, fun _ => none⟩ 64 _ (by decide)

/-- The second segment of a body does not fit into the buffer, and the third, inside the body,
is served as a request. -/
theorem declaredBody_refused :
    ¬((Track.new 64).run ⟨Registry.basic, fun _ => none⟩
      [lit "POST / HTTP/1.1\r\nContent-Length: 60\r\n\r\nabc",
        lit "xxxxxxxxxxxxxxxxxxxxxxxxxxxxxx",
        lit "GET / HTTP/1.1\r\n\r\n"]).Apart := by
  intro h
  exact h ⟨0, 39, 60⟩ (by decide) ⟨1, 72, 90⟩ (by decide) (by decide) 72
    (by decide) (by decide) ⟨by decide, by decide⟩

end Pistache.Http
