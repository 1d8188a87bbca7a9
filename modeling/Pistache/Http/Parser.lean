import Pistache.Http.BodyStep
import Pistache.Http.HeadReplay

/-!
# The parser

`ParserBase` with the three steps of a message, and its two instances `RequestParser` and
`ResponseParser`.  A parser holds the message, the private fields of its body step, the buffer
and the number of the current step.

* `Work.settles`, `Work.resumes` — the three steps one after the other settle and resume.
-/

set_option autoImplicit false

namespace Pistache.Http

open Resumable

variable {H L : Type}

/-- What the steps work on. -/
structure Work (H L : Type) where
  message : Derived H L
  bodyStep : BodyStep := {}
  deriving DecidableEq

namespace Work

def setMessage (m : Derived H L) (w : Work H L) : Work H L := { w with message := m }

def body (w : Work H L) : BodyStep × Message H := (w.bodyStep, w.message.toMessage)

def setBody (s : BodyStep × Message H) (w : Work H L) : Work H L :=
  { message := { w.message with toMessage := s.2 }, bodyStep := s.1 }

@[simp] theorem setMessage_message (m : Derived H L) (w : Work H L) :
    (w.setMessage m).message = m := rfl
@[simp] theorem setMessage_bodyStep (m : Derived H L) (w : Work H L) :
    (w.setMessage m).bodyStep = w.bodyStep := rfl
@[simp] theorem body_setBody (s : BodyStep × Message H) (w : Work H L) :
    (w.setBody s).body = s := rfl
@[simp] theorem setBody_bodyStep (s : BodyStep × Message H) (w : Work H L) :
    (w.setBody s).bodyStep = s.1 := rfl
@[simp] theorem setBody_message (s : BodyStep × Message H) (w : Work H L) :
    (w.setBody s).message.toMessage = s.2 := rfl

/-- The chunk has not been left between the CR and the LF behind its data. -/
def NotCut (w : Work H L) : Prop := w.bodyStep.chunk.NotCut

/-- `allSteps`: the line of the message, its headers, its body. -/
def allSteps (registry : Registry H) (line : Step (Derived H L)) : List (Step (Work H L)) :=
  [lift message setMessage line,
    lift message setMessage (HeadersStep.apply registry),
    lift body setBody BodyStep.apply]

/-- `ParserBase::parse` on the bytes behind the cursor. -/
def parse (registry : Registry H) (line : Step (Derived H L)) : Step (Nat × Work H L) :=
  runChain State.Next (allSteps registry line)

/-! ## Incremental parsing -/

variable (registry : Registry H) {line : Step (Derived H L)}

theorem message_link {f : Step (Derived H L)} (hset : Settles State.Again (fun _ => True) f)
    (hres : Resumes State.Again (fun _ => True) f) :
    Link State.Next State.Again (NotCut (H := H)) (lift message setMessage f) where
  settles w xs _ := lift_settles message setMessage hset w xs trivial
  resumes w xs _ hr _ := lift_resumes message setMessage hres (fun _ _ => rfl)
    (fun _ _ _ => rfl) w xs trivial hr trivial
  keeps _ _ hs _ := hs

theorem BodyStep_never_next (s : BodyStep × Message H) (xs : Bytes) :
    (BodyStep.apply s xs).result ≠ .Next := by
  have hchunks : ∀ (c : Chunk × Message H) (ys : Bytes),
      (BodyStep.parseChunks c ys).result ≠ .Next := by
    intro c ys
    refine Loop.run_induction BodyStep.chunkBody_shrinks (fun s cursor => ⟨.Again, s, cursor⟩)
      (fun _ _ => True) (fun o => o.result ≠ .Next) ?_ (fun _ _ _ _ _ _ => trivial) c ys trivial
    intro s zs o _ h
    unfold BodyStep.chunkBody BodyStep.ofChunk at h
    repeat' split at h
    all_goals first | cases h; simp | cases h
  unfold BodyStep.apply
  split
  · simp
  · unfold BodyStep.parseContentLength
    dsimp only
    repeat' split
    all_goals simp
  · unfold BodyStep.parseTransferEncoding
    split
    · exact hchunks _ _
    · simp
  · simp

theorem links (hset : Settles State.Again (fun _ => True) line)
    (hres : Resumes State.Again (fun _ => True) line) :
    ∀ f ∈ allSteps registry line, Link State.Next State.Again (NotCut (H := H)) f := by
  intro f hf
  simp only [allSteps, List.mem_cons, List.not_mem_nil, or_false] at hf
  rcases hf with rfl | rfl | rfl
  · exact message_link hset hres
  · exact message_link (HeadersStep.settles registry) (HeadersStep.resumes registry)
  · exact
      { settles := lift_settles body setBody BodyStep.settles
        resumes := lift_resumes body setBody BodyStep.resumes (fun _ _ => rfl)
          (fun _ _ _ => rfl)
        keeps := fun w xs _ h => absurd h (BodyStep_never_next (body w) xs) }

theorem settles (hset : Settles State.Again (fun _ => True) line)
    (hres : Resumes State.Again (fun _ => True) line) :
    Settles State.Again (fun p => p.2.NotCut) (parse registry line) :=
  runChain_settles (links registry hset hres) (by simp)

/-- **A message in pieces** is parsed as if it had arrived whole, as long as no piece ends
between the CR and the LF behind the data of a chunk. -/
theorem resumes (hset : Settles State.Again (fun _ => True) line)
    (hres : Resumes State.Again (fun _ => True) line) :
    Resumes State.Again (fun p => p.2.NotCut) (parse registry line) :=
  runChain_resumes (links registry hset hres) (by simp)

theorem forward (hline : Forward line) : Forward (parse registry line) := by
  refine runChain_forward _ fun f hf => ?_
  simp only [allSteps, List.mem_cons, List.not_mem_nil, or_false] at hf
  rcases hf with rfl | rfl | rfl
  · exact lift_forward message setMessage hline
  · exact lift_forward message setMessage (HeadersStep.forward registry)
  · exact lift_forward body setBody BodyStep.forward

end Work

/-! ## The head alone -/

/-- The first two steps. -/
def headSteps (registry : Registry H) (line : Step (Derived H L)) : List (Step (Derived H L)) :=
  [line, HeadersStep.apply registry]

/-- The head of a message on the bytes behind the cursor. -/
def parseHead (registry : Registry H) (line : Step (Derived H L)) : Step (Nat × Derived H L) :=
  runChain State.Next (headSteps registry line)

section Head

variable (registry : Registry H) {line : Step (Derived H L)}

theorem head_links (hset : Settles State.Again (fun _ => True) line)
    (hres : Resumes State.Again (fun _ => True) line) :
    ∀ f ∈ headSteps registry line, Link State.Next State.Again (fun _ => True) f := by
  intro f hf
  simp only [headSteps, List.mem_cons, List.not_mem_nil, or_false] at hf
  rcases hf with rfl | rfl
  · exact ⟨hset, hres, fun _ _ _ _ => trivial⟩
  · exact ⟨HeadersStep.settles registry, HeadersStep.resumes registry, fun _ _ _ _ => trivial⟩

theorem head_settles (hset : Settles State.Again (fun _ => True) line)
    (hres : Resumes State.Again (fun _ => True) line) :
    Settles State.Again (fun _ => True) (parseHead registry line) :=
  runChain_settles (head_links registry hset hres) (by simp)

/-- A part of a head that is accepted to its end makes the parser wait. -/
theorem parseHead_part (hset : Settles State.Again (fun _ => True) line)
    (hres : Resumes State.Again (fun _ => True) line) {m : Derived H L} {head t : Bytes}
    {p : Nat × Derived H L}
    (haccepted : parseHead registry line (0, m) head = ⟨.Next, p, []⟩) (ht : t <+: head)
    (hne : t ≠ head) : (parseHead registry line (0, m) t).result = .Again := by
  by_contra hr
  obtain ⟨z, hz⟩ := ht
  have hsettled := head_settles registry hset hres (0, m) t trivial hr z
  rw [hz, haccepted] at hsettled
  -- the head would not be read to its end
  have hrest := congrArg Out.rest hsettled
  rw [Out.more_rest, eq_comm, List.append_eq_nil_iff] at hrest
  rw [hrest.2, List.append_nil] at hz
  exact hne hz

theorem head_forward (hline : Forward line) : Forward (parseHead registry line) := by
  refine runChain_forward _ fun f hf => ?_
  simp only [headSteps, List.mem_cons, List.not_mem_nil, or_false] at hf
  rcases hf with rfl | rfl
  · exact hline
  · exact HeadersStep.forward registry

/-- The steps of the head do not look at the body step. -/
theorem chain_lift_message (b : BodyStep) : ∀ (fs : List (Step (Derived H L))) (k : Nat)
    (m : Derived H L) (xs : Bytes),
    chain State.Next (fs.map (lift Work.message Work.setMessage)) (k, ⟨m, b⟩) xs =
      ⟨(chain State.Next fs (k, m) xs).result,
        ((chain State.Next fs (k, m) xs).state.1, ⟨(chain State.Next fs (k, m) xs).state.2, b⟩),
        (chain State.Next fs (k, m) xs).rest⟩
  | [], k, m, xs => rfl
  | f :: fs, k, m, xs => by
    rw [List.map_cons, chain, chain]
    by_cases hr : (f m xs).result = .Next
    · have hlift : (lift Work.message Work.setMessage f ⟨m, b⟩ xs).result = .Next := hr
      simp only [if_pos hr, if_pos hlift]
      exact chain_lift_message b fs (k + 1) _ _
    · have hlift : ¬(lift Work.message Work.setMessage f ⟨m, b⟩ xs).result = .Next := hr
      simp only [if_neg hr, if_neg hlift]
      rfl

/-- **A parse is the head and then the body.** -/
theorem Work.parse_eq (k : Nat) (hk : k ≤ 2) (m : Derived H L) (b : BodyStep) (xs : Bytes) :
    Work.parse registry line (k, ⟨m, b⟩) xs =
      if (parseHead registry line (k, m) xs).result = .Next then
        let o := parseHead registry line (k, m) xs
        let body := BodyStep.apply (b, o.state.2.toMessage) o.rest
        ⟨body.result,
          (o.state.1, ⟨{ o.state.2 with toMessage := body.state.2 }, body.state.1⟩), body.rest⟩
      else
        ⟨(parseHead registry line (k, m) xs).result,
          ((parseHead registry line (k, m) xs).state.1,
            ⟨(parseHead registry line (k, m) xs).state.2, b⟩),
          (parseHead registry line (k, m) xs).rest⟩ := by
  have hsteps : (Work.allSteps registry line).drop k =
      ((headSteps registry line).drop k).map (lift Work.message Work.setMessage) ++
        [lift Work.body Work.setBody BodyStep.apply] := by
    match k, hk with
    | 0, _ => rfl
    | 1, _ => rfl
    | 2, _ => rfl
  unfold Work.parse parseHead runChain
  dsimp only
  rw [hsteps, chain_append, chain_lift_message]
  by_cases hr : (chain State.Next ((headSteps registry line).drop k) (k, m) xs).result = .Next
  · simp only [if_pos hr]
    generalize chain State.Next ((headSteps registry line).drop k) (k, m) xs = o
    have hnever : ¬(lift Work.body Work.setBody BodyStep.apply ⟨o.state.2, b⟩ o.rest).result = .Next :=
      Work.BodyStep_never_next (b, o.state.2.toMessage) o.rest
    rw [chain, if_neg hnever]
    rfl
  · simp only [if_neg hr]

theorem parseHead_step_le {k : Nat} (hk : k ≤ 2) (m : Derived H L) (xs : Bytes) :
    (parseHead registry line (k, m) xs).state.1 ≤ 2 ∧
      ((parseHead registry line (k, m) xs).result = .Next →
        (parseHead registry line (k, m) xs).state.1 = 2) := by
  unfold parseHead runChain
  match k, hk with
  | 0, _ =>
    simp only [headSteps, List.drop_zero, chain]
    repeat' split
    all_goals simp_all
  | 1, _ =>
    simp only [headSteps, List.drop_succ_cons, List.drop_zero, chain]
    repeat' split
    all_goals simp_all
  | 2, _ => simp [headSteps, chain]

end Head

/-! ## The parser -/

structure ParserBase (H L : Type) extends Work H L where
  buffer : ArrayStreamBuf
  currentStep : Nat := 0
  deriving DecidableEq

namespace ParserBase

variable (registry : Registry H) (line : Step (Derived H L))

/-- What a call of `parse` does with the bytes behind the cursor. -/
def outcome (p : ParserBase H L) : Out State (Nat × Work H L) UInt8 :=
  Work.parse registry line (p.currentStep, p.toWork) p.buffer.unread

/-- `ParserBase::parse`. -/
def parse (p : ParserBase H L) : State × ParserBase H L :=
  let o := p.outcome registry line
  (o.result,
    { toWork := o.state.2, currentStep := o.state.1, buffer := p.buffer.advanceTo o.rest })

/-- `ParserBase::feed`; `none` when the buffer refuses, which changes nothing. -/
def feed (p : ParserBase H L) (data : Bytes) : Option (ParserBase H L) :=
  (p.buffer.feed data).map fun buffer => { p with buffer }

/-- `ParserBase::reset`: the message and the body step stay as they are. -/
def reset (p : ParserBase H L) : ParserBase H L :=
  { p with buffer := p.buffer.reset, currentStep := 0 }

end ParserBase

namespace RequestParser

def new (maxDataSize : Nat) : ParserBase H RequestLine :=
  { message := Request.new, buffer := .new maxDataSize }

def parse (registry : Registry H) : ParserBase H RequestLine → State × ParserBase H RequestLine :=
  ParserBase.parse registry RequestLineStep.apply

def reset (p : ParserBase H RequestLine) : ParserBase H RequestLine :=
  { p.reset with message := Request.new }

end RequestParser

namespace ResponseParser

def new (maxDataSize : Nat) : ParserBase H Unit :=
  { message := Response.new, buffer := .new maxDataSize }

def parse (registry : Registry H) : ParserBase H Unit → State × ParserBase H Unit :=
  ParserBase.parse registry ResponseLineStep.apply

/-- `ParserImpl<Http::Response>` does not override `reset`. -/
def reset (p : ParserBase H Unit) : ParserBase H Unit := p.reset

end ResponseParser

end Pistache.Http
