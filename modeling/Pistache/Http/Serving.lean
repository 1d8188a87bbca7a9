import Pistache.Lib.Machine
import Pistache.Tcp.Sequence

/-!
# Responses on one connection

`ResponseWriter::send` writes a response at once.  `serveFile` writes its head and leaves the
file to the continuation of that write's promise; other responses may be written in between.

* `Inv.step` — while no response is issued for a file descriptor of which a file is still to be
  written, the writes for it are those of its responses, one response after the other.
* `responses_contiguous` — all runs; what has been handed to the socket is, response by
  response, a first part of its bytes.

The buffers are those that the writer has filled; a response that exceeds its buffer is not
written.  A continuation is run at any time after its promise has been resolved.
-/

set_option autoImplicit false

namespace Pistache.Http

open Pistache.Tcp

/-- A response in its buffers: that of `putOnWire`, or the head of `serveFile` and the file. -/
inductive WireResponse where
  | send (buffer : RawBuffer)
  | serveFile (head : RawBuffer) (content : Bytes)

namespace WireResponse

/-- What is written at once. -/
def head : WireResponse → RawBuffer
  | send buffer => buffer
  | serveFile head _ => head

/-- The file that is left to the continuation. -/
def content : WireResponse → Option Bytes
  | send _ => none
  | serveFile _ content => some content

def bytes : WireResponse → Bytes
  | send buffer => buffer.bytes
  | serveFile head content => head.bytes ++ content

end WireResponse

/-- A response that has been issued: the promises of its writes, and the continuation that has
not been run. -/
structure Issued where
  fd : Option Fd
  response : WireResponse
  head : Nat
  file : Option Nat
  continuation : Option Bytes

/-- The promises of its writes, in their order. -/
def Issued.writes (r : Issued) : List Nat := r.head :: r.file.toList

/-- The transport and what has been issued. -/
structure Serving where
  settling : Settling := {}
  issued : List Issued := []

inductive Serving.Event where
  | issue (fd : Option Fd) (response : WireResponse)
  | transport (event : Tcp.Event)
  | continuation (i : Nat)

namespace Serving

def issue (s : Serving) (fd : Option Fd) (response : WireResponse) : Serving where
  settling := s.settling.step (.asyncWrite fd (.raw response.head))
  issued := s.issued ++ [⟨fd, response, s.settling.system.calls.length, none, response.content⟩]

/-- The write of the head is still queued. -/
def headQueued (s : Serving) (r : Issued) : Bool :=
  (s.settling.system.transport.writesQueue.any fun e => e.deferred = r.head) ||
    match r.fd with
    | none => false
    | some fd => (s.settling.system.transport.toWrite fd).any fun e => e.deferred = r.head

/-- The continuation of the head's promise is run when it has been resolved, and goes away when
it has been rejected or can be settled no more. -/
def runContinuation (s : Serving) (i : Nat) : Serving :=
  match s.issued[i]? with
  | none => s
  | some r =>
    match r.continuation with
    | none => s
    | some content =>
      match s.settling.outcomes r.head with
      | .resolved _ :: _ =>
        { settling := s.settling.step (.asyncWrite r.fd (.file content))
          issued := s.issued.set i
            { r with file := some s.settling.system.calls.length, continuation := none } }
      | .rejected :: _ => { s with issued := s.issued.set i { r with continuation := none } }
      | [] =>
        if s.headQueued r then s
        else { s with issued := s.issued.set i { r with continuation := none } }

/-- All writes are those of the responses. -/
def step (s : Serving) : Event → Serving
  | .issue fd response => s.issue fd response
  | .transport (.asyncWrite _ _) => s
  | .transport event => { s with settling := s.settling.step event }
  | .continuation i => s.runContinuation i

/-- The responses issued for the file descriptor. -/
def issuedFor (s : Serving) (fd : Fd) : List Issued := s.issued.filter fun r => r.fd = some fd

/-- What has been sent of a response. -/
def sentFor (s : Serving) (r : Issued) : Bytes := r.writes.flatMap s.settling.sentOf

/-- No response is issued for the file descriptor while the file of another is still to be
written. -/
def Apart (fd : Fd) (s : Serving) : Event → Prop
  | .issue fd' _ => fd' = some fd → ∀ r ∈ s.issuedFor fd, r.continuation = none
  | _ => True

/-! ## The writes of the responses -/

/-- What the writes of a response are. -/
structure Fits (s : Settling) (r : Issued) : Prop where
  head : ∃ call, s.system.calls[r.head]? = some call ∧ call.buffer.bytes = r.response.head.bytes
  continuation : ∀ content, r.continuation = some content →
    r.file = none ∧ r.response.content = some content
  file : ∀ d, r.file = some d → ∃ call content, s.system.calls[d]? = some call ∧
    r.response.content = some content ∧ call.buffer.bytes = content ∧
      ∃ n, .resolved n ∈ s.outcomes r.head

/-- The writes for the file descriptor are those of the responses issued for it, one response
after the other, and only the last can have a file that is still to be written. -/
structure Inv (fd : Fd) (s : Serving) : Prop where
  sane : Settling.Sane s.settling
  status : ∀ d, ∃ lost, Settling.Status d s.settling lost
  ordered : s.settling.system.Ordered
  fits : ∀ r ∈ s.issued, Fits s.settling r
  writes : callsFor fd s.settling.system.calls = (s.issuedFor fd).flatMap Issued.writes
  last : ∀ earlier r later, s.issuedFor fd = earlier ++ r :: later → r.continuation ≠ none →
    later = []

variable {fd : Fd} {s : Serving}

/-- Calls are kept, and what has been settled stays settled. -/
theorem Fits.step {settling : Settling} {r : Issued} (h : Fits settling r) (event : Tcp.Event) :
    Fits (settling.step event) r where
  head := by
    obtain ⟨call, hc, hbytes⟩ := h.head
    exact ⟨call, Settling.step_getElem? hc event, hbytes⟩
  continuation := h.continuation
  file d hd := by
    obtain ⟨call, content, hc, hcontent, hbytes, n, hn⟩ := h.file d hd
    exact ⟨call, content, Settling.step_getElem? hc event, hcontent, hbytes, n,
      Settling.mem_outcomes_step hn event⟩

theorem callsFor_append (calls : List Tcp.Call) (call : Tcp.Call) :
    callsFor fd (calls ++ [call]) =
      callsFor fd calls ++ if call.fd = some fd then [calls.length] else [] := by
  unfold callsFor
  rw [List.length_append, List.length_singleton, List.range_succ, List.filter_append]
  congr 1
  · refine List.filter_congr fun d hd => ?_
    rw [List.getElem?_append_left (List.mem_range.mp hd)]
  · by_cases h : call.fd = some fd
    · simp [h]
    · simp [h]

/-- **What has been sent of a response** is a first part of it. -/
theorem sentFor_prefix (h : Inv fd s) {r : Issued} (hr : r ∈ s.issued) :
    s.sentFor r <+: r.response.bytes := by
  have hfits := h.fits r hr
  obtain ⟨call, hc, hbytes⟩ := hfits.head
  obtain ⟨_, hstatus⟩ := h.status r.head
  obtain ⟨hpart, hwhole⟩ := hstatus.part hc
  rw [hbytes] at hpart hwhole
  have hhead : r.response.head.bytes <+: r.response.bytes := by
    cases r.response with
    | send buffer => exact List.prefix_refl _
    | serveFile head content => exact List.prefix_append _ _
  unfold sentFor Issued.writes
  cases hfile : r.file with
  | none =>
    simp only [Option.toList_none, List.flatMap_cons, List.flatMap_nil, List.append_nil]
    exact hpart.trans hhead
  | some d =>
    obtain ⟨call', content, hc', hcontent, hbytes', n, hn⟩ := hfits.file d hfile
    obtain ⟨_, hstatus'⟩ := h.status d
    obtain ⟨hpart', -⟩ := hstatus'.part hc'
    simp only [Option.toList_some, List.flatMap_cons, List.flatMap_nil, List.append_nil]
    rw [hwhole n hn]
    rw [hbytes'] at hpart'
    cases hresponse : r.response with
    | send buffer =>
      rw [hresponse] at hcontent
      cases hcontent
    | serveFile head content' =>
      rw [hresponse] at hcontent
      obtain rfl := Option.some.inj hcontent
      exact (List.prefix_append_right_inj _).mpr hpart'

/-! ## One event -/

/-- A response takes the place of one that it continues. -/
theorem issuedFor_set (fd : Fd) {i : Nat} {r : Issued} (r' : Issued) (hi : s.issued[i]? = some r)
    (hfd : r'.fd = r.fd) (settling : Settling) :
    (r.fd = some fd ∧ ∃ earlier later, s.issuedFor fd = earlier ++ r :: later ∧
        ({ settling, issued := s.issued.set i r' } : Serving).issuedFor fd = earlier ++ r' :: later) ∨
      (r.fd ≠ some fd ∧
        ({ settling, issued := s.issued.set i r' } : Serving).issuedFor fd = s.issuedFor fd) := by
  obtain ⟨hlt, hget⟩ := List.getElem?_eq_some_iff.mp hi
  have hsplit : s.issued = s.issued.take i ++ r :: s.issued.drop (i + 1) := by
    rw [← hget, List.getElem_cons_drop, List.take_append_drop]
  have hset : s.issued.set i r' = s.issued.take i ++ r' :: s.issued.drop (i + 1) :=
    List.set_eq_take_append_cons_drop.trans (if_pos hlt)
  unfold issuedFor
  dsimp only
  by_cases h : r.fd = some fd
  · refine .inl ⟨h, (s.issued.take i).filter fun r => r.fd = some fd,
      (s.issued.drop (i + 1)).filter fun r => r.fd = some fd, ?_, ?_⟩
    · conv_lhs => rw [hsplit]
      rw [List.filter_append, List.filter_cons_of_pos (by simpa using h)]
    · rw [hset, List.filter_append, List.filter_cons_of_pos (by simpa [hfd] using h)]
  · refine .inr ⟨h, ?_⟩
    conv_rhs => rw [hsplit]
    rw [hset, List.filter_append, List.filter_append, List.filter_cons_of_neg (by simpa [hfd] using h),
      List.filter_cons_of_neg (by simpa using h)]

/-- The last response may have a file that is still to be written. -/
theorem last_concat {responses : List Issued} (r' : Issued)
    (h : ∀ r ∈ responses, r.continuation = none) {earlier later : List Issued} {r : Issued}
    (he : responses ++ [r'] = earlier ++ r :: later) (hr : r.continuation ≠ none) : later = [] := by
  rcases List.eq_nil_or_concat later with rfl | ⟨l, x, rfl⟩
  · rfl
  · rw [List.concat_eq_append, ← List.cons_append, ← List.append_assoc] at he
    obtain ⟨he, -⟩ := List.append_inj' he rfl
    refine absurd (h r ?_) hr
    rw [he]
    exact List.mem_append_right _ List.mem_cons_self

/-- Those before it have none. -/
theorem Inv.before (h : Inv fd s) {earlier later : List Issued} {r : Issued}
    (he : s.issuedFor fd = earlier ++ r :: later) : ∀ x ∈ earlier, x.continuation = none := by
  intro x hx
  by_contra hne
  obtain ⟨l₁, l₂, rfl⟩ := List.append_of_mem hx
  have hnil := h.last l₁ x (l₂ ++ r :: later) (by rw [he]; simp) hne
  exact absurd hnil (by simp)

theorem Inv.issue (h : Inv fd s) (fd' : Option Fd) (response : WireResponse)
    (hapart : fd' = some fd → ∀ r ∈ s.issuedFor fd, r.continuation = none) :
    Inv fd (s.issue fd' response) := by
  have hcalls : (s.issue fd' response).settling.system.calls = s.settling.system.calls ++
      [⟨fd', .raw response.head, fd'.bind s.settling.system.owner⟩] := rfl
  have hissued : (s.issue fd' response).issuedFor fd = s.issuedFor fd ++ if fd' = some fd then
      [⟨fd', response, s.settling.system.calls.length, none, response.content⟩] else [] := by
    unfold issuedFor Serving.issue
    rw [List.filter_append]
    congr 1
    by_cases hfd : fd' = some fd
    · simp [hfd]
    · simp [hfd]
  refine ⟨h.sane.asyncWrite fd' _, fun d => ?_, Settling.ordered_step h.sane h.ordered _,
    fun r hr => ?_, ?_, fun earlier r later he hr => ?_⟩
  · obtain ⟨lost, hstatus⟩ := h.status d
    exact ⟨_, (hstatus.step h.sane _).2⟩
  · rcases List.mem_append.mp hr with hr | hr
    · exact (h.fits r hr).step _
    · obtain rfl := List.mem_singleton.mp hr
      refine ⟨⟨⟨fd', .raw response.head, fd'.bind s.settling.system.owner⟩, ?_, rfl⟩,
        fun content hcontent => ⟨rfl, hcontent⟩, fun d hd => nomatch hd⟩
      rw [hcalls]
      simp
  · rw [hcalls, callsFor_append, hissued, List.flatMap_append, h.writes]
    by_cases hfd : fd' = some fd
    · simp [hfd, Issued.writes]
    · simp [hfd]
  · rw [hissued] at he
    by_cases hfd : fd' = some fd
    · rw [if_pos hfd] at he
      exact last_concat _ (hapart hfd) he hr
    · rw [if_neg hfd, List.append_nil] at he
      exact h.last earlier r later he hr

/-- The continuation goes away. -/
theorem Inv.forget (h : Inv fd s) {i : Nat} {r : Issued} (hi : s.issued[i]? = some r)
    (hr : r.continuation ≠ none) :
    Inv fd { s with issued := s.issued.set i { r with continuation := none } } := by
  have hmem := List.mem_of_getElem? hi
  refine ⟨h.sane, h.status, h.ordered, fun x hx => ?_, ?_, fun earlier x later he hx => ?_⟩
  · rcases List.mem_or_eq_of_mem_set hx with hx | rfl
    · exact h.fits x hx
    · exact ⟨(h.fits r hmem).head, fun _ hc => (nomatch hc), (h.fits r hmem).file⟩
  · rw [h.writes]
    rcases issuedFor_set fd { r with continuation := none } hi rfl s.settling with
      ⟨-, earlier, later, he, he'⟩ | ⟨-, he⟩
    · rw [he, he']
      simp [Issued.writes]
    · rw [he]
  · rcases issuedFor_set fd { r with continuation := none } hi rfl s.settling with
      ⟨-, earlier', later', he', hnew⟩ | ⟨-, hnew⟩
    · obtain rfl := h.last earlier' r later' he' hr
      rw [hnew] at he
      exact last_concat _ (h.before he') he hx
    · rw [hnew] at he
      exact h.last earlier x later he hx

/-- The file is written behind the head. -/
theorem Inv.file (h : Inv fd s) {i n : Nat} {r : Issued} {content : Bytes}
    (hi : s.issued[i]? = some r) (hr : r.continuation = some content)
    (hresolved : .resolved n ∈ s.settling.outcomes r.head) :
    Inv fd
      { settling := s.settling.step (.asyncWrite r.fd (.file content))
        issued := s.issued.set i
          { r with file := some s.settling.system.calls.length, continuation := none } } := by
  have hmem := List.mem_of_getElem? hi
  have hfits := h.fits r hmem
  obtain ⟨hnone, hcontent⟩ := hfits.continuation content hr
  have hcalls : (s.settling.step (.asyncWrite r.fd (.file content))).system.calls =
      s.settling.system.calls ++ [⟨r.fd, .file content, r.fd.bind s.settling.system.owner⟩] := rfl
  have hset := issuedFor_set fd
    { r with file := some s.settling.system.calls.length, continuation := none } hi rfl
    (s.settling.step (.asyncWrite r.fd (.file content)))
  refine ⟨h.sane.asyncWrite _ _, fun d => ?_, Settling.ordered_step h.sane h.ordered _,
    fun x hx => ?_, ?_, fun earlier x later he hx => ?_⟩
  · obtain ⟨lost, hstatus⟩ := h.status d
    exact ⟨_, (hstatus.step h.sane _).2⟩
  · rcases List.mem_or_eq_of_mem_set hx with hx | rfl
    · exact (h.fits x hx).step _
    · refine ⟨(hfits.step _).head, fun _ hc => (nomatch hc), fun d hd => ?_⟩
      obtain rfl := Option.some.inj hd
      refine ⟨⟨r.fd, .file content, r.fd.bind s.settling.system.owner⟩, content, ?_, hcontent, rfl,
        n, Settling.mem_outcomes_step hresolved _⟩
      rw [hcalls]
      simp
  · dsimp only
    rw [hcalls, callsFor_append, h.writes]
    rcases hset with ⟨hfd, earlier, later, he, he'⟩ | ⟨hfd, he⟩
    · obtain rfl := h.last earlier r later he (by rw [hr]; exact Option.some_ne_none _)
      rw [he, he', if_pos hfd]
      simp [Issued.writes, hnone]
    · rw [he, if_neg hfd, List.append_nil]
  · rcases hset with ⟨-, earlier', later', he', hnew⟩ | ⟨-, hnew⟩
    · obtain rfl := h.last earlier' r later' he' (by rw [hr]; exact Option.some_ne_none _)
      rw [hnew] at he
      exact last_concat _ (h.before he') he hx
    · rw [hnew] at he
      exact h.last earlier x later he hx

/-- **One event.** -/
theorem Inv.step (h : Inv fd s) {event : Event} (hapart : Apart fd s event) :
    Inv fd (s.step event) := by
  cases event with
  | issue fd' response => exact h.issue fd' response hapart
  | continuation i =>
    change Inv fd (s.runContinuation i)
    unfold runContinuation
    cases hi : s.issued[i]? with
    | none => exact h
    | some r =>
      dsimp only
      cases hr : r.continuation with
      | none => exact h
      | some content =>
        have hforget := h.forget hi (by rw [hr]; exact Option.some_ne_none _)
        dsimp only
        split
        · rename_i n _ hout
          exact h.file hi hr (by rw [hout]; exact List.mem_cons_self)
        · exact hforget
        · split
          · exact h
          · exact hforget
  | transport event =>
    by_cases hcall : ∃ fd' buffer, event = .asyncWrite fd' buffer
    · obtain ⟨fd', buffer, rfl⟩ := hcall
      exact h
    · have hstep : s.step (.transport event) = { s with settling := s.settling.step event } := by
        cases event with
        | asyncWrite fd' buffer => exact absurd ⟨fd', buffer, rfl⟩ hcall
        | _ => rfl
      have hcalls : (s.settling.step event).system.calls = s.settling.system.calls :=
        System.step_calls fun fd' buffer he => hcall ⟨fd', buffer, he⟩
      rw [hstep]
      refine ⟨?_, fun d => ?_, Settling.ordered_step h.sane h.ordered _,
        fun r hr => (h.fits r hr).step event, ?_, h.last⟩
      · obtain ⟨lost, hstatus⟩ := h.status 0
        exact (hstatus.step h.sane event).1
      · obtain ⟨lost, hstatus⟩ := h.status d
        exact ⟨_, (hstatus.step h.sane event).2⟩
      · dsimp only
        rw [hcalls]
        exact h.writes

theorem Inv.init : Inv fd {} where
  sane := Settling.sane_empty
  status d := ⟨False, .unissued (Nat.zero_le d) id⟩
  ordered := System.Ordered.init
  fits _ hr := nomatch hr
  writes := rfl
  last earlier r later he := by
    have := congrArg List.length he
    simp [issuedFor] at this

end Serving

open Serving in
/-- **Responses stay contiguous**: in a run in which no response is issued for a file descriptor
while the file of another is still to be written, what has been handed to its socket is, response
by response in the order in which they were issued, a first part of the bytes of each. -/
theorem responses_contiguous (fd : Fd) (events : List Serving.Event)
    (hapart : Machine.Always Serving.step (Apart fd) {} events) :
    (sentTo fd (Machine.run Serving.step {} events).settling.system.sent).flatMap Sent.bytes =
        ((Machine.run Serving.step {} events).issuedFor fd).flatMap
          (Machine.run Serving.step {} events).sentFor ∧
      ∀ r ∈ (Machine.run Serving.step {} events).issuedFor fd,
        (Machine.run Serving.step {} events).sentFor r <+: r.response.bytes := by
  have hstep : ∀ (s : Serving) event, Inv fd s → Apart fd s event → Inv fd (s.step event) :=
    fun _ _ h hapart => h.step hapart
  have h := Machine.Always.inv hstep events {} Inv.init hapart
  generalize Machine.run Serving.step {} events = s at h
  refine ⟨?_, fun r hr => sentFor_prefix h (List.mem_filter.mp hr).1⟩
  rw [handedTo_eq h.ordered, h.writes, List.flatMap_assoc]
  rfl

/-! ### A file and a response -/

/-- The head of the file is written, and its continuation writes the file behind it. -/
def fileServed : List Serving.Event :=
  [.transport (.accept 0), .transport (.handlePeer 0),
    .issue (some 0) (.serveFile ⟨[1, 2], 2, by decide⟩ [3]), .transport (.handleWriteQueue true),
    .transport .loop, .transport (.answer (.wrote 2)), .continuation 0,
    .issue (some 0) (.send ⟨[4], 1, by decide⟩), .transport (.handleWriteQueue false),
    .transport (.handleWriteQueue true), .transport .loop, .transport (.answer (.wrote 1))]

theorem responses_contiguous_fileServed :
    (sentTo 0 (Machine.run Serving.step {} fileServed).settling.system.sent).flatMap Sent.bytes =
        ((Machine.run Serving.step {} fileServed).issuedFor 0).flatMap
          (Machine.run Serving.step {} fileServed).sentFor ∧
      ∀ r ∈ (Machine.run Serving.step {} fileServed).issuedFor 0,
        (Machine.run Serving.step {} fileServed).sentFor r <+: r.response.bytes := by
  refine responses_contiguous 0 fileServed ⟨trivial, trivial, ?_, trivial, trivial, trivial, trivial,
    ?_, trivial, trivial, trivial, trivial, trivial⟩
  · exact fun _ r hr => nomatch hr
  · intro _ r hr
    obtain rfl := List.mem_singleton.mp hr
    rfl

/-- Another response is issued while the head is being written. -/
def fileOvertaken : List Serving.Event :=
  [.transport (.accept 0), .transport (.handlePeer 0),
    .issue (some 0) (.serveFile ⟨[1, 2], 2, by decide⟩ [3]),
    .issue (some 0) (.send ⟨[4], 1, by decide⟩), .transport (.handleWriteQueue false),
    .transport (.handleWriteQueue true), .transport .loop, .transport (.answer (.wrote 2)),
    .continuation 0, .transport .loop, .transport (.answer (.wrote 1)),
    .transport (.handleWriteQueue true), .transport .loop, .transport (.answer (.wrote 1))]

/-- The bytes of the first response are not contiguous. -/
theorem fileOvertaken_split :
    (sentTo 0 (Machine.run Serving.step {} fileOvertaken).settling.system.sent).flatMap Sent.bytes =
        [1, 2, 4, 3] ∧
      ((Machine.run Serving.step {} fileOvertaken).issuedFor 0).map (fun r => r.response.bytes) =
        [[1, 2, 3], [4]] ∧
      ¬ ([1, 2, 3] : Bytes) <:+: [1, 2, 4, 3] := by
  refine ⟨by decide, by decide, by decide⟩

end Pistache.Http
