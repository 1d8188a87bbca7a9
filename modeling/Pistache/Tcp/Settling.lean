import Pistache.Tcp.Transport

/-!
# The promises of writes

Each call of `asyncWrite` returns a promise, and its entry carries the deferred that settles it
through the two queues.  `settle` is the call of `resolve` or `reject` that a pass of the inner
loop of `asyncWriteImpl` makes; the other ways an entry can leave the queues make none.

* `Settling.step` — a transport with what its promises have been settled with.
* `Status` — the entry of one promise is in one place with the rest of its bytes, or it has left.
-/

set_option autoImplicit false

namespace Pistache.Tcp

/-- How a promise is settled: resolved with a number of bytes, or rejected. -/
inductive Outcome where
  | resolved (bytes : Nat)
  | rejected
  deriving DecidableEq, Repr

/-- The deferred that one pass of the inner loop of `asyncWriteImpl` settles. -/
def Transport.settle (t : Transport) (fd : Fd) (totalWritten : Nat) (answer : Answer) :
    List (Nat × Outcome) :=
  match t.toWrite fd with
  | [] => []
  | entry :: _ =>
    match answer with
    | .wrote n =>
      let totalWritten := totalWritten + min n (entry.buffer.size - totalWritten)
      if totalWritten ≥ entry.buffer.size then [(entry.deferred, .resolved totalWritten)] else []
    | .failed => [(entry.deferred, .rejected)]
    | _ => []

/-- The system with what has been settled, in order. -/
structure Settling where
  system : System := {}
  settled : List (Nat × Outcome) := []

namespace Settling

def step (s : Settling) (event : Event) : Settling where
  system := s.system.step event
  settled := s.settled ++
    match event, s.system.transport.running with
    | .answer a, .inner fd n => s.system.transport.settle fd n (s.system.answerOf fd a)
    | _, _ => []

def run : Settling → List Event → Settling
  | s, [] => s
  | s, event :: events => run (s.step event) events

/-- How the promise has been settled, each time it was. -/
def outcomes (s : Settling) (d : Nat) : List Outcome :=
  (s.settled.filter fun x => x.1 = d).map Prod.snd

/-- The bytes handed to a socket from the entry of the promise. -/
def sentOf (s : Settling) (d : Nat) : Bytes :=
  ((s.system.sent.filter fun x => x.deferred = d).map Sent.bytes).flatten

/-- The entry of the promise is in one of the queues. -/
def Waits (s : Settling) (d : Nat) : Prop :=
  (∃ e ∈ s.system.transport.writesQueue, e.deferred = d) ∨
    ∃ fd, ∃ e ∈ s.system.transport.toWrite fd, e.deferred = d

/-- The promise was settled once: resolved with the size of the buffer given to `asyncWrite`,
all its bytes having been sent, or rejected, not all of them having been sent. -/
def Right (s : Settling) (d : Nat) : Prop :=
  ∃ call, s.system.calls[d]? = some call ∧
    ((s.outcomes d = [.resolved call.buffer.bytes.length] ∧ s.sentOf d = call.buffer.bytes) ∨
      (s.outcomes d = [.rejected] ∧
        (call.buffer.bytes ≠ [] → s.sentOf d ≠ call.buffer.bytes)))

/-- What has been sent of the buffer given to `asyncWrite`: a first part, and the whole when the
promise was resolved. -/
def Part (s : Settling) (d : Nat) (call : Call) : Prop :=
  s.sentOf d <+: call.buffer.bytes ∧
    ∀ n, .resolved n ∈ s.outcomes d → s.sentOf d = call.buffer.bytes

end Settling

/-- The event takes the entry of the promise away without settling it: a write for no connected
peer, one that waits when the connection turns out to be gone or is closed; or it resolves the
promise of a raw buffer that was cut when its socket had taken only a part. -/
def System.Loses (s : System) (d : Nat) : Event → Prop
  | .handleWriteQueue _ => s.transport.running = .no ∧
      ∃ write rest, s.transport.writesQueue = write :: rest ∧ write.deferred = d ∧
        ∀ fd, write.peerFd = some fd → s.transport.peers_ fd = none
  | .answer a => ∃ fd n, s.transport.running = .inner fd n ∧
      ((s.answerOf fd a = .gone ∧ ∃ e ∈ s.transport.toWrite fd, e.deferred = d) ∨
        ∃ bytes e wq call, s.answerOf fd a = .wrote bytes ∧ s.transport.toWrite fd = e :: wq ∧
          e.deferred = d ∧ n + bytes ≥ e.buffer.size ∧ s.calls[d]? = some call ∧
          e.buffer.size ≠ call.buffer.bytes.length)
  | .closeFd fd => (∀ fd' n, s.transport.running ≠ .inner fd' n) ∧
      ∃ e ∈ s.transport.toWrite fd, e.deferred = d
  | _ => False

/-- Some event of the run loses the promise. -/
def System.LosesIn (d : Nat) : System → List Event → Prop
  | _, [] => False
  | s, event :: events => s.Loses d event ∨ LosesIn d (s.step event) events

namespace Settling

/-! ## The entry of one promise -/

variable (d : Nat)

/-- The entries of the promise. -/
def own (entries : List WriteEntry) : List WriteEntry := entries.filter fun e => e.deferred = d

@[simp] theorem own_append (l l' : List WriteEntry) : own d (l ++ l') = own d l ++ own d l' :=
  List.filter_append _ _

theorem own_cons_self {e : WriteEntry} (h : e.deferred = d) (l : List WriteEntry) :
    own d (e :: l) = e :: own d l :=
  List.filter_cons_of_pos (by simpa using h)

theorem own_cons_of_ne {e : WriteEntry} (h : e.deferred ≠ d) (l : List WriteEntry) :
    own d (e :: l) = own d l :=
  List.filter_cons_of_neg (by simpa using h)

theorem own_eq_nil {l : List WriteEntry} : own d l = [] ↔ ∀ e ∈ l, e.deferred ≠ d := by
  simp [own, List.filter_eq_nil_iff]

/-- What of an entry in a deque is still to be sent. -/
def remaining (t : Transport) (fd : Fd) (e : WriteEntry) : Bytes :=
  match t.running, t.toWrite fd with
  | .inner fd' n, front :: _ =>
    if fd' = fd ∧ front.deferred = e.deferred then e.buffer.bytes.drop n else e.buffer.rest
  | _, _ => e.buffer.rest

/-- Where the entry of the promise is, and what is left of its bytes. -/
inductive Place (t : Transport) : Option Bytes → Prop where
  | queue (e : WriteEntry) : own d t.writesQueue = [e] → (∀ fd, own d (t.toWrite fd) = []) →
      Place t (some e.buffer.rest)
  | deque (fd : Fd) (e : WriteEntry) : own d t.writesQueue = [] → own d (t.toWrite fd) = [e] →
      (∀ fd', fd' ≠ fd → own d (t.toWrite fd') = []) → Place t (some (remaining t fd e))
  | gone : own d t.writesQueue = [] → (∀ fd, own d (t.toWrite fd) = []) → Place t none

/-- What holds of all entries. -/
structure Sane (s : Settling) : Prop where
  queue : ∀ e ∈ s.system.transport.writesQueue,
    e.deferred < s.system.calls.length ∧ e.buffer.offset ≤ e.buffer.size
  deque : ∀ fd, ∀ e ∈ s.system.transport.toWrite fd,
    e.deferred < s.system.calls.length ∧ e.buffer.offset ≤ e.buffer.size
  inner : ∀ fd n, s.system.transport.running = .inner fd n →
    ∃ e wq, s.system.transport.toWrite fd = e :: wq ∧ n ≤ e.buffer.size
  settled : ∀ x ∈ s.settled, x.1 < s.system.calls.length
  sent : ∀ x ∈ s.system.sent, x.deferred < s.system.calls.length

/-- A promise whose entry waits is not settled and the bytes sent and left are its own; one whose
entry has left is settled as it should be, unless it was lost. -/
inductive Status (s : Settling) (lost : Prop) : Prop where
  | unissued : s.system.calls.length ≤ d → ¬ lost → Status s lost
  | waiting (call : Call) (left : Bytes) : s.system.calls[d]? = some call →
      Place d s.system.transport (some left) → s.sentOf d ++ left = call.buffer.bytes →
      (call.buffer.bytes ≠ [] → left ≠ []) → s.outcomes d = [] → ¬ lost → Status s lost
  | left (call : Call) : s.system.calls[d]? = some call → Place d s.system.transport none →
      s.Part d call → (s.Right d ↔ ¬ lost) → Status s lost

variable {d} {s : Settling} {t t' : Transport} {fd : Fd}

/-! ## What is left of an entry -/

theorem remaining_of_not_inner (h : ∀ n, t.running ≠ .inner fd n) (e : WriteEntry) :
    remaining t fd e = e.buffer.rest := by
  unfold remaining
  split
  · rename_i fd' n front wq hrunning hto
    rw [if_neg]
    rintro ⟨rfl, -⟩
    exact h n hrunning
  · rfl

theorem remaining_front {n : Nat} {e : WriteEntry} {wq : List WriteEntry}
    (hrunning : t.running = .inner fd n) (hto : t.toWrite fd = e :: wq) :
    remaining t fd e = e.buffer.bytes.drop n := by
  simp [remaining, hrunning, hto]

theorem remaining_behind {n : Nat} {e front : WriteEntry} {wq : List WriteEntry}
    (hrunning : t.running = .inner fd n) (hto : t.toWrite fd = front :: wq)
    (hne : front.deferred ≠ e.deferred) : remaining t fd e = e.buffer.rest := by
  simp [remaining, hrunning, hto, hne]

/-- The place of an entry of which as much is left as before. -/
theorem Place.congr {o : Option Bytes} (h : Place d t o)
    (hqueue : own d t'.writesQueue = own d t.writesQueue)
    (hto : ∀ fd, own d (t'.toWrite fd) = own d (t.toWrite fd))
    (hleft : ∀ fd, ∀ e ∈ own d (t.toWrite fd), remaining t' fd e = remaining t fd e) :
    Place d t' o := by
  cases h with
  | queue e h₁ h₂ => exact .queue e (hqueue.trans h₁) fun fd => (hto fd).trans (h₂ fd)
  | deque fd e h₁ h₂ h₃ =>
    rw [← hleft fd e (by rw [h₂]; exact List.mem_singleton_self e)]
    exact .deque fd e (hqueue.trans h₁) ((hto fd).trans h₂) fun fd' hne => (hto fd').trans (h₃ fd' hne)
  | gone h₁ h₂ => exact .gone (hqueue.trans h₁) fun fd => (hto fd).trans (h₂ fd)

/-- The place when no deque is being drained, before and after. -/
theorem Place.quiet {o : Option Bytes} (h : Place d t o)
    (hqueue : own d t'.writesQueue = own d t.writesQueue)
    (hto : ∀ fd, own d (t'.toWrite fd) = own d (t.toWrite fd))
    (hno : ∀ fd n, t.running ≠ .inner fd n) (hno' : ∀ fd n, t'.running ≠ .inner fd n) :
    Place d t' o :=
  h.congr hqueue hto fun fd e _ => by
    rw [remaining_of_not_inner (hno fd), remaining_of_not_inner (hno' fd)]

/-- An entry that has left is in no queue. -/
theorem Place.not_mem (h : Place d t none) :
    (∀ e ∈ t.writesQueue, e.deferred ≠ d) ∧ ∀ fd, ∀ e ∈ t.toWrite fd, e.deferred ≠ d := by
  cases h with
  | gone h₁ h₂ => exact ⟨(own_eq_nil d).mp h₁, fun fd => (own_eq_nil d).mp (h₂ fd)⟩

theorem own_mem {l : List WriteEntry} {e : WriteEntry} (h : own d l = [e]) :
    e ∈ l ∧ e.deferred = d := by
  have he : e ∈ own d l := by rw [h]; exact List.mem_singleton_self e
  obtain ⟨h₁, h₂⟩ := List.mem_filter.mp he
  exact ⟨h₁, by simpa using h₂⟩

/-- Settled or sent for another promise. -/
theorem outcomes_append (l : List (Nat × Outcome)) (hl : ∀ x ∈ l, x.1 ≠ d) (system : System) :
    ({ system, settled := s.settled ++ l } : Settling).outcomes d = s.outcomes d := by
  unfold outcomes
  rw [List.filter_append, (List.filter_eq_nil_iff.mpr fun x hx => by simpa using hl x hx :
    l.filter (fun x => x.1 = d) = []), List.append_nil]

theorem sentOf_append (x : Sent) (hx : x.deferred ≠ d) (settled : List (Nat × Outcome))
    {system : System} (hsent : system.sent = s.system.sent ++ [x]) :
    ({ system, settled } : Settling).sentOf d = s.sentOf d := by
  unfold sentOf
  rw [hsent, List.filter_append, List.filter_cons_of_neg (by simpa using hx), List.filter_nil,
    List.append_nil]

theorem sentOf_append_self (x : Sent) (hx : x.deferred = d) (settled : List (Nat × Outcome))
    {system : System} (hsent : system.sent = s.system.sent ++ [x]) :
    ({ system, settled } : Settling).sentOf d = s.sentOf d ++ x.bytes := by
  unfold sentOf
  rw [hsent, List.filter_append, List.filter_cons_of_pos (by simpa using hx), List.filter_nil,
    List.map_append, List.flatten_append]
  simp

theorem outcomes_append_self (o : Outcome) (system : System) :
    ({ system, settled := s.settled ++ [(d, o)] } : Settling).outcomes d = s.outcomes d ++ [o] := by
  unfold outcomes
  rw [List.filter_append, List.filter_cons_of_pos (by simp), List.filter_nil, List.map_append]
  rfl

/-- A promise that was not settled was not settled rightly. -/
theorem not_right (h : s.outcomes d = []) : ¬ s.Right d := by
  rintro ⟨call, -, ⟨h', -⟩ | ⟨h', -⟩⟩
  · rw [h] at h'
    cases h'
  · rw [h] at h'
    cases h'

theorem Right.congr {s' : Settling} (hcall : s'.system.calls[d]? = s.system.calls[d]?)
    (ho : s'.outcomes d = s.outcomes d) (hs : s'.sentOf d = s.sentOf d) :
    s'.Right d ↔ s.Right d := by
  unfold Right
  rw [hcall, ho, hs]

theorem Part.congr {s' : Settling} {call : Call} (h : s.Part d call)
    (ho : s'.outcomes d = s.outcomes d) (hs : s'.sentOf d = s.sentOf d) : s'.Part d call := by
  unfold Part
  rw [ho, hs]
  exact h

/-- Nothing but a first part has been sent for a promise that was not resolved. -/
theorem part_of_append {call : Call} (left : Bytes) (h : s.sentOf d ++ left = call.buffer.bytes)
    (hout : ∀ n, .resolved n ∉ s.outcomes d) : s.Part d call :=
  ⟨⟨left, h⟩, fun n hn => absurd hn (hout n)⟩

end Settling

end Pistache.Tcp
