import Pistache.Lib.Group
import Pistache.Tcp.Promises

/-!
# The sequence of writes

The bytes handed to the socket of one file descriptor, write by write: they are sent in the
order of the calls of `asyncWrite`, whatever becomes of the connection.

* `Ordered.step` — one event keeps what has been sent, what is in the deque and what is in
  `writesQueue` in the order of the calls.
* `handedTo_eq` — what has been handed to a socket is what has been sent of the calls for its
  file descriptor, call by call.
-/

set_option autoImplicit false

namespace Pistache.Tcp

/-- The calls of `asyncWrite` for the file descriptor, as their promises. -/
def callsFor (fd : Fd) (calls : List Call) : List Nat :=
  (List.range calls.length).filter fun d => (calls[d]?).bind Call.fd = some fd

/-- What has been sent to the file descriptor. -/
def sentTo (fd : Fd) (sent : List Sent) : List Sent := sent.filter fun x => x.fd = fd

namespace System

/-- The promises of what has been sent to the file descriptor and of what is queued for it. -/
def keys (s : System) (fd : Fd) : List Nat :=
  (sentTo fd s.sent).map Sent.deferred ++ ((s.transport.toWrite fd).map WriteEntry.deferred ++
    (s.transport.writesQueue.filter fun e => e.peerFd = some fd).map WriteEntry.deferred)

/-- They are in the order of the calls, and those of calls for the file descriptor. -/
structure Ordered (s : System) : Prop where
  order : ∀ fd, (s.keys fd).Pairwise (· ≤ ·)
  made : ∀ fd, ∀ d ∈ s.keys fd, (s.calls[d]?).bind Call.fd = some fd

theorem Ordered.init : Ordered {} where
  order _ := List.Pairwise.nil
  made _ _ hd := nomatch hd

variable {s : System}

/-- An event that sends nothing, and only takes entries away or moves them on. -/
theorem Ordered.of_sublist (h : Ordered s) {s' : System} (hcalls : s'.calls = s.calls)
    (hkeys : ∀ fd, (s'.keys fd).Sublist (s.keys fd)) : Ordered s' where
  order fd := (h.order fd).sublist (hkeys fd)
  made fd d hd := by
    rw [hcalls]
    exact h.made fd d ((hkeys fd).subset hd)

/-- An event that leaves the entries alone. -/
theorem Ordered.of_eq (h : Ordered s) {s' : System} (hcalls : s'.calls = s.calls)
    (hsent : s'.sent = s.sent) (hqueue : s'.transport.writesQueue = s.transport.writesQueue)
    (hto : s'.transport.toWrite = s.transport.toWrite) : Ordered s' := by
  refine h.of_sublist hcalls fun fd => ?_
  rw [keys, keys, hsent, hqueue, hto]

theorem Ordered.asyncWrite (h : Ordered s) (fd : Option Fd) (buffer : Buffer) :
    Ordered (s.step (.asyncWrite fd buffer)) := by
  have hcalls : (s.step (.asyncWrite fd buffer)).calls =
      s.calls ++ [⟨fd, buffer, fd.bind s.owner⟩] := rfl
  have hkeys : ∀ fd', (s.step (.asyncWrite fd buffer)).keys fd' =
      s.keys fd' ++ if fd = some fd' then [s.calls.length] else [] := by
    intro fd'
    have hqueue : (s.step (.asyncWrite fd buffer)).transport.writesQueue =
        s.transport.writesQueue ++ [⟨s.calls.length, .ofBuffer buffer, fd⟩] := rfl
    unfold keys
    rw [hqueue, List.filter_append, List.map_append, List.append_assoc, List.append_assoc]
    by_cases hfd : fd = some fd'
    · simp [System.step, Transport.asyncWrite, hfd]
    · simp [System.step, Transport.asyncWrite, hfd]
  have hlt : ∀ fd', ∀ d ∈ s.keys fd', d < s.calls.length := by
    intro fd' d hd
    obtain ⟨call, hcall, -⟩ := Option.bind_eq_some_iff.mp (h.made fd' d hd)
    exact (List.getElem?_eq_some_iff.mp hcall).1
  refine ⟨fun fd' => ?_, fun fd' d hd => ?_⟩
  · rw [hkeys]
    refine List.pairwise_append.mpr ⟨h.order fd', ?_, fun d hd d' hd' => ?_⟩
    · split
      · exact List.pairwise_singleton _ _
      · exact List.Pairwise.nil
    · split at hd'
      · obtain rfl := List.mem_singleton.mp hd'
        exact (hlt fd' d hd).le
      · cases hd'
  · rw [hkeys] at hd
    rw [hcalls]
    rcases List.mem_append.mp hd with hd | hd
    · rw [List.getElem?_append_left (hlt fd' d hd)]
      exact h.made fd' d hd
    · split at hd
      · rename_i hfd
        obtain rfl := List.mem_singleton.mp hd
        simp [hfd]
      · cases hd

theorem Ordered.handleWriteQueue (h : Ordered s) (flush : Bool) :
    Ordered (s.step (.handleWriteQueue flush)) := by
  unfold System.step
  dsimp only
  split
  · rcases s.transport.handleWriteQueue_cases flush with ⟨-, he⟩ |
      ⟨write, rest, hqueue, ⟨-, he⟩ | ⟨fd, hfd, -, he⟩⟩
    · exact h.of_eq rfl rfl (by rw [he]) (by rw [he])
    · refine h.of_sublist rfl fun fd => ?_
      rw [keys, keys, he, hqueue]
      refine List.Sublist.append_left (List.Sublist.append_left ?_ _) _
      exact ((List.sublist_cons_self write rest).filter _).map _
    · refine h.of_sublist rfl fun fd' => ?_
      rw [keys, keys, he, hqueue]
      refine List.Sublist.append_left ?_ _
      by_cases hsame : fd' = fd
      · subst hsame
        rw [List.filter_cons_of_pos (by simpa using hfd)]
        simp
      · have hne : ¬ write.peerFd = some fd' := by
          rw [hfd]
          exact fun h => hsame (Option.some.inj h).symm
        rw [List.filter_cons_of_neg (by simpa using hne)]
        simp only [Function.update_of_ne hsame]
        exact List.Sublist.refl _
  · exact h

/-- What an answer leaves of the deque. -/
theorem send_keys {t : Transport} {fd : Fd} (n : Nat) (answer : Answer) {e : WriteEntry}
    {wq : List WriteEntry} (hto : t.toWrite fd = e :: wq) :
    (((t.send fd n answer).2.toWrite fd).map WriteEntry.deferred).Sublist
      (e.deferred :: wq.map WriteEntry.deferred) := by
  unfold Transport.send
  rw [hto]
  cases answer with
  | wrote bytes =>
    dsimp only
    split
    · simp [Transport.cleanUp]
    · rw [hto]
      exact List.Sublist.refl _
  | again =>
    dsimp only
    split
    · rw [hto]
      exact List.Sublist.refl _
    · simp
  | gone => simp
  | failed => simp [Transport.cleanUp]

theorem Ordered.answer (h : Ordered s) {fd : Fd} {n : Nat} (a : Answer) {e : WriteEntry}
    {wq : List WriteEntry} (hrunning : s.transport.running = .inner fd n)
    (hto : s.transport.toWrite fd = e :: wq) : Ordered (s.step (.answer a)) := by
  have hfront : s.frontDeferred fd = e.deferred := by rw [frontDeferred, hto]
  have hstep : s.step (.answer a) = { s with
      transport := (s.transport.send fd n (s.answerOf fd a)).2
      sent := s.sent ++ [⟨fd, e.deferred, s.owner fd,
        (s.transport.send fd n (s.answerOf fd a)).1⟩] } := by
    simp only [System.step, hrunning, hfront]
  rw [hstep]
  generalize s.answerOf fd a = answer
  obtain ⟨hqueue, -⟩ := s.transport.send_frame fd n answer
  have hother : ∀ fd', fd' ≠ fd → (s.transport.send fd n answer).2.toWrite fd' =
      s.transport.toWrite fd' := fun fd' hne => (Transport.send_other (Ne.symm hne) n answer).1
  have hsub := send_keys n answer hto
  -- an entry is sent once more, or leaves after it has been sent
  have hkeys : s.keys fd = (sentTo fd s.sent).map Sent.deferred ++ (e.deferred ::
      wq.map WriteEntry.deferred ++
        (s.transport.writesQueue.filter fun e => e.peerFd = some fd).map WriteEntry.deferred) := by
    rw [keys, hto, List.map_cons]
  have hself : ∀ x : Sent, x.fd = fd → x.deferred = e.deferred →
      (({ s with transport := (s.transport.send fd n answer).2, sent := s.sent ++ [x] } :
        System).keys fd).Sublist ((sentTo fd s.sent).map Sent.deferred ++ (e.deferred ::
          (e.deferred :: wq.map WriteEntry.deferred ++
            (s.transport.writesQueue.filter fun e => e.peerFd = some fd).map WriteEntry.deferred))) := by
    intro x hx hd
    unfold keys sentTo
    rw [hqueue, List.filter_append, List.filter_cons_of_pos (by simpa using hx), List.filter_nil,
      List.map_append, List.map_singleton, hd, List.append_assoc, List.singleton_append]
    exact List.Sublist.append_left ((List.Sublist.append_right hsub _).cons_cons _) _
  have helse : ∀ x : Sent, x.fd = fd → ∀ fd', fd' ≠ fd →
      ({ s with transport := (s.transport.send fd n answer).2, sent := s.sent ++ [x] } :
        System).keys fd' = s.keys fd' := by
    intro x hx fd' hne
    unfold keys sentTo
    rw [hqueue, List.filter_append, List.filter_cons_of_neg (by simpa [hx] using Ne.symm hne),
      List.filter_nil, List.append_nil, hother fd' hne]
  have horder := h.order fd
  rw [hkeys] at horder
  refine ⟨fun fd' => ?_, fun fd' d hd => ?_⟩
  · by_cases hsame : fd' = fd
    · subst hsame
      refine List.Pairwise.sublist (hself _ rfl rfl) ?_
      obtain ⟨h₁, h₂, h₃⟩ := List.pairwise_append.mp horder
      refine List.pairwise_append.mpr ⟨h₁, List.pairwise_cons.mpr ⟨fun d hd => ?_, h₂⟩, ?_⟩
      · rcases List.mem_cons.mp hd with rfl | hd
        · exact le_refl _
        · exact (List.pairwise_cons.mp h₂).1 d hd
      · intro d hd d' hd'
        rcases List.mem_cons.mp hd' with rfl | hd'
        · exact h₃ d hd _ List.mem_cons_self
        · exact h₃ d hd d' hd'
    · rw [helse _ rfl fd' hsame]
      exact h.order fd'
  · by_cases hsame : fd' = fd
    · subst hsame
      refine h.made fd' d ?_
      rw [hkeys]
      have hd := (hself _ rfl rfl).subset hd
      rcases List.mem_append.mp hd with hd | hd
      · exact List.mem_append_left _ hd
      · refine List.mem_append_right _ ?_
        rcases List.mem_cons.mp hd with rfl | hd
        · exact List.mem_cons_self
        · exact hd
    · rw [helse _ rfl fd' hsame] at hd
      exact h.made fd' d hd

end System

/-! ## Calls and settled promises stay -/

/-- Only `asyncWrite` is a call. -/
theorem System.step_calls {s : System} {event : Event} (h : ∀ fd buffer, event ≠ .asyncWrite fd buffer) :
    (s.step event).calls = s.calls := by
  unfold System.step
  cases event with
  | asyncWrite fd buffer => exact absurd rfl (h fd buffer)
  | removePeer fd => rfl
  | accept fd =>
    dsimp only
    split <;> rfl
  | handlePeer fd =>
    dsimp only
    split <;> rfl
  | handleWriteQueue flush =>
    dsimp only
    split <;> rfl
  | writable fd =>
    dsimp only
    split <;> rfl
  | loop =>
    dsimp only
    split <;> rfl
  | answer a =>
    dsimp only
    split <;> rfl
  | closeFd fd =>
    dsimp only
    split <;> rfl

namespace Settling

variable {s : Settling}

/-- The number of a call remains its own. -/
theorem step_getElem? {d : Nat} {call : Call} (h : s.system.calls[d]? = some call)
    (event : Event) : (s.step event).system.calls[d]? = some call := by
  by_cases hcall : ∃ fd buffer, event = .asyncWrite fd buffer
  · obtain ⟨fd, buffer, rfl⟩ := hcall
    have hcalls : (s.step (.asyncWrite fd buffer)).system.calls =
        s.system.calls ++ [⟨fd, buffer, fd.bind s.system.owner⟩] := rfl
    rw [hcalls, List.getElem?_append_left (List.getElem?_eq_some_iff.mp h).1]
    exact h
  · have hcalls : (s.step event).system.calls = s.system.calls :=
      System.step_calls fun fd buffer he => hcall ⟨fd, buffer, he⟩
    rw [hcalls]
    exact h

theorem mem_outcomes_step {d : Nat} {o : Outcome} (h : o ∈ s.outcomes d) (event : Event) :
    o ∈ (s.step event).outcomes d := by
  unfold outcomes step at *
  rw [List.filter_append, List.map_append]
  exact List.mem_append_left _ h

/-- What has been sent of a call. -/
theorem Status.part {d : Nat} {lost : Prop} (h : Status d s lost) {call : Call}
    (hc : s.system.calls[d]? = some call) : s.Part d call := by
  cases h with
  | unissued hd _ =>
    have := (List.getElem?_eq_some_iff.mp hc).1
    omega
  | waiting call' left hc' _ hb _ hout _ =>
    obtain rfl := Option.some.inj (hc.symm.trans hc')
    exact part_of_append left hb (by rw [hout]; exact fun _ => List.not_mem_nil)
  | left call' hc' _ hpart _ =>
    obtain rfl := Option.some.inj (hc.symm.trans hc')
    exact hpart

/-- **One event.** -/
theorem ordered_step (hsane : Sane s) (h : s.system.Ordered) (event : Event) :
    (s.step event).system.Ordered := by
  have hstill : ∀ {s' : Settling}, Still s s' → s'.system.Ordered := fun hs =>
    h.of_eq hs.calls hs.sent hs.writesQueue hs.toWrite
  cases event with
  | accept fd => exact hstill (still_accept fd)
  | handlePeer fd => exact hstill (still_handlePeer fd)
  | writable fd => exact hstill (still_writable fd)
  | loop => exact hstill still_loop
  | removePeer fd => exact hstill (still_removePeer fd)
  | asyncWrite fd buffer => exact h.asyncWrite fd buffer
  | handleWriteQueue flush => exact h.handleWriteQueue flush
  | answer a =>
    change System.Ordered (s.system.step (.answer a))
    cases hrunning : s.system.transport.running with
    | no => simpa only [System.step, hrunning] using h
    | top fd => simpa only [System.step, hrunning] using h
    | inner fd n =>
      obtain ⟨e, wq, hto, -⟩ := hsane.inner fd n hrunning
      exact h.answer a hrunning hto
  | closeFd fd =>
    change System.Ordered (s.system.step (.closeFd fd))
    unfold System.step
    dsimp only
    split
    · exact h
    · refine h.of_sublist rfl fun fd' => ?_
      refine List.Sublist.append_left (List.Sublist.append_right (List.Sublist.map _ ?_) _) _
      by_cases hfd : fd' = fd
      · subst hfd
        simp [Transport.closeFd]
      · simp only [Transport.closeFd, Function.update_of_ne hfd]
        exact List.Sublist.refl _

end Settling

/-- **Call by call**: what has been handed to a socket. -/
theorem handedTo_eq {s : Settling} (h : s.system.Ordered) (fd : Fd) :
    (sentTo fd s.system.sent).flatMap Sent.bytes =
      (callsFor fd s.system.calls).flatMap s.sentOf := by
  have hmade : ∀ x ∈ s.system.sent, (s.system.calls[x.deferred]?).bind Call.fd = some x.fd := by
    intro x hx
    refine h.made x.fd x.deferred (List.mem_append_left _ ?_)
    exact List.mem_map_of_mem (List.mem_filter.mpr ⟨hx, by simp⟩)
  have hkeys : (callsFor fd s.system.calls).Pairwise (· < ·) :=
    List.Pairwise.filter _ List.pairwise_lt_range
  have hsorted : ((sentTo fd s.system.sent).map Sent.deferred).Pairwise (· ≤ ·) :=
    (List.pairwise_append.mp (h.order fd)).1
  rw [Group.flatMap_eq Sent.bytes hkeys hsorted fun x hx => ?_]
  · refine List.flatMap_congr fun d hd => ?_
    obtain ⟨-, hfd⟩ := List.mem_filter.mp hd
    unfold Settling.sentOf sentTo
    rw [List.filter_filter, ← List.flatMap_def]
    congr 1
    refine List.filter_congr fun x hx => ?_
    by_cases hxd : x.deferred = d
    · have hxfd := hmade x hx
      rw [hxd] at hxfd
      have : x.fd = fd := Option.some.inj (hxfd.symm.trans (by simpa using hfd))
      simp [hxd, this]
    · simp [hxd]
  · obtain ⟨hx, hfd⟩ := List.mem_filter.mp hx
    obtain ⟨call, hcall, -⟩ := Option.bind_eq_some_iff.mp (hmade x hx)
    refine List.mem_filter.mpr ⟨List.mem_range.mpr (List.getElem?_eq_some_iff.mp hcall).1, ?_⟩
    rw [hmade x hx]
    simpa using hfd

end Pistache.Tcp
