import Pistache.Tcp.Transport

/-!
# Whose bytes are sent

A `WriteEntry` names a file descriptor, and the kernel may give the number of a closed one to a
new peer.  The bytes sent to a peer should be of calls of `asyncWrite` that were made while the
file descriptor was its own.

* `Inv.step` — one event keeps the entries that can be sent to a peer its own, unless a peer is
  registered while a write of an earlier owner is still in `writesQueue`.
* `ownership` — all runs without such events.
-/

set_option autoImplicit false

namespace Pistache.Tcp

/-- The peer to which the file descriptor of the entry belonged when `asyncWrite` was called. -/
def madeFor (calls : List Call) (deferred : Nat) : Option Peer := calls[deferred]?.bind Call.owner

namespace System

/-- Every byte sent was enqueued for the peer to which the file descriptor belongs. -/
def Own (s : System) : Prop :=
  ∀ x ∈ s.sent, x.bytes ≠ [] → ∃ peer, x.owner = some peer ∧ madeFor s.calls x.deferred = some peer

/-- A file descriptor is given to a new peer when nothing is left in its deque, and, should the
old peer still be registered, nothing in `writesQueue` either.  A peer is registered when only
its own writes are in `writesQueue`. -/
def Clean (s : System) : Event → Prop
  | .accept fd => s.owner fd = none → s.transport.toWrite fd = [] ∧
      (s.transport.peers_ fd ≠ none → ∀ e ∈ s.transport.writesQueue, e.peerFd ≠ some fd)
  | .handlePeer fd => ∀ peer, s.owner fd = some peer →
      ∀ e ∈ s.transport.writesQueue, e.peerFd = some fd → madeFor s.calls e.deferred = some peer
  | _ => True

/-- So are all events of a run. -/
def CleanAll : System → List Event → Prop
  | _, [] => True
  | s, event :: events => s.Clean event ∧ CleanAll (s.step event) events

/-- The entries that can be sent to a peer are its own. -/
structure Inv (s : System) : Prop where
  own : s.Own
  toWrite : ∀ fd peer, s.owner fd = some peer →
    ∀ e ∈ s.transport.toWrite fd, madeFor s.calls e.deferred = some peer
  writesQueue : ∀ fd peer, s.owner fd = some peer → s.transport.peers_ fd ≠ none →
    ∀ e ∈ s.transport.writesQueue, e.peerFd = some fd → madeFor s.calls e.deferred = some peer

end System

/-- Later calls change nothing. -/
theorem madeFor_append {calls : List Call} {deferred : Nat} {peer : Peer}
    (h : madeFor calls deferred = some peer) (later : List Call) :
    madeFor (calls ++ later) deferred = some peer := by
  obtain ⟨call, hcall, howner⟩ := Option.bind_eq_some_iff.mp h
  obtain ⟨hlt, -⟩ := List.getElem?_eq_some_iff.mp hcall
  rw [madeFor, List.getElem?_append_left hlt, hcall]
  exact howner

theorem madeFor_last (calls : List Call) (call : Call) :
    madeFor (calls ++ [call]) calls.length = call.owner := by
  simp [madeFor]

namespace Transport

variable {t : Transport} {fd : Fd}

/-- An answer of a socket brings no new entry into a deque. -/
theorem send_toWrite (n : Nat) (answer : Answer) (fd' : Fd) :
    ∀ e ∈ (t.send fd n answer).2.toWrite fd',
      ∃ e' ∈ t.toWrite fd', e'.deferred = e.deferred := by
  have hself : ∀ e ∈ t.toWrite fd', ∃ e' ∈ t.toWrite fd', e'.deferred = e.deferred :=
    fun e he => ⟨e, he, rfl⟩
  have hupdate : ∀ wq, (∀ e ∈ wq, ∃ e' ∈ t.toWrite fd, e'.deferred = e.deferred) →
      ∀ e ∈ Function.update t.toWrite fd wq fd', ∃ e' ∈ t.toWrite fd', e'.deferred = e.deferred := by
    intro wq hwq e he
    by_cases hsame : fd' = fd
    · subst hsame
      rw [Function.update_self] at he
      exact hwq e he
    · rw [Function.update_of_ne hsame] at he
      exact hself e he
  unfold send
  cases hto : t.toWrite fd with
  | nil => exact hself
  | cons entry wq =>
    have hwq : ∀ e ∈ wq, ∃ e' ∈ t.toWrite fd, e'.deferred = e.deferred := fun e he =>
      ⟨e, hto ▸ List.mem_cons_of_mem entry he, rfl⟩
    cases answer with
    | wrote bytes =>
      dsimp only
      split
      · exact hupdate wq hwq
      · exact hself
    | again =>
      dsimp only
      split
      · exact hself
      · refine hupdate _ fun e he => ?_
        rcases List.mem_cons.mp he with rfl | he
        · exact ⟨entry, hto ▸ List.mem_cons_self, rfl⟩
        · exact hwq e he
    | gone => exact hupdate [] fun e he => nomatch he
    | failed => exact hupdate wq hwq

/-- Bytes are handed over by an answer that says so, from the front of the deque. -/
theorem send_bytes {n : Nat} {answer : Answer} (h : (t.send fd n answer).1 ≠ []) :
    (∃ entry wq, t.toWrite fd = entry :: wq) ∧ ∃ bytes, answer = .wrote bytes := by
  unfold send at h
  cases hto : t.toWrite fd with
  | nil => simp [hto] at h
  | cons entry wq =>
    refine ⟨⟨entry, wq, rfl⟩, ?_⟩
    simp only [hto] at h
    cases answer with
    | wrote bytes => exact ⟨bytes, rfl⟩
    | again =>
      dsimp only at h
      split at h <;> exact absurd rfl h
    | gone => exact absurd rfl h
    | failed => exact absurd rfl h

end Transport

namespace System

variable {s : System}

theorem Inv.init : Inv {} where
  own _ h := nomatch h
  toWrite _ _ h := nomatch h
  writesQueue _ _ h := nomatch h

/-- An event that only takes entries away, or moves one that may be moved. -/
theorem Inv.frame (h : Inv s) {t : Transport}
    (hto : ∀ fd, ∀ e ∈ t.toWrite fd, (∃ e' ∈ s.transport.toWrite fd, e'.deferred = e.deferred) ∨
      s.transport.peers_ fd ≠ none ∧ e ∈ s.transport.writesQueue ∧ e.peerFd = some fd)
    (hqueue : ∀ e ∈ t.writesQueue, e ∈ s.transport.writesQueue)
    (hpeers : ∀ fd, t.peers_ fd ≠ none → s.transport.peers_ fd ≠ none) :
    Inv { s with transport := t } where
  own := h.own
  toWrite fd peer howner e he := by
    rcases hto fd e he with ⟨e', he', heq⟩ | ⟨hp, hmem, hfd⟩
    · rw [← heq]
      exact h.toWrite fd peer howner e' he'
    · exact h.writesQueue fd peer howner hp e hmem hfd
  writesQueue fd peer howner hp e he hfd :=
    h.writesQueue fd peer howner (hpeers fd hp) e (hqueue e he) hfd

theorem Inv.handleWriteQueue (h : Inv s) (flush : Bool) :
    Inv { s with transport := s.transport.handleWriteQueue flush } := by
  have hself : ∀ fd, ∀ e ∈ s.transport.toWrite fd,
      ∃ e' ∈ s.transport.toWrite fd, e'.deferred = e.deferred := fun fd e he => ⟨e, he, rfl⟩
  rcases s.transport.handleWriteQueue_cases flush with ⟨-, he⟩ | ⟨write, rest, hqueue,
    ⟨-, he⟩ | ⟨fd, hfd, hp, he⟩⟩
  · rw [he]
    exact h
  · rw [he]
    refine h.frame (fun fd e he => .inl (hself fd e he)) (fun e he => ?_) fun fd hp => hp
    rw [hqueue]
    exact List.mem_cons_of_mem write he
  · rw [he]
    refine h.frame (fun fd' e he => ?_) (fun e he => ?_) fun fd hp => hp
    · by_cases hsame : fd' = fd
      · subst hsame
        simp only [Function.update_self] at he
        rcases List.mem_append.mp he with he | he
        · exact .inl (hself fd' e he)
        · obtain rfl := List.mem_singleton.mp he
          exact .inr ⟨hp, hqueue ▸ List.mem_cons_self, hfd⟩
      · simp only [Function.update_of_ne hsame] at he
        exact .inl (hself fd' e he)
    · rw [hqueue]
      exact List.mem_cons_of_mem write he

theorem Inv.answer (h : Inv s) {fd : Fd} {n : Nat} (a : Answer) :
    Inv { s with
      transport := (s.transport.send fd n (s.answerOf fd a)).2
      sent := s.sent ++ [⟨fd, s.frontDeferred fd, s.owner fd,
        (s.transport.send fd n (s.answerOf fd a)).1⟩] } := by
  obtain ⟨hqueue, hpeers⟩ := s.transport.send_frame fd n (s.answerOf fd a)
  have h' := h.frame (t := (s.transport.send fd n (s.answerOf fd a)).2)
    (fun fd' e he => .inl (Transport.send_toWrite n _ fd' e he)) (fun e he => hqueue ▸ he)
    (fun fd' hp => hpeers ▸ hp)
  refine ⟨fun x hx hbytes => ?_, h'.toWrite, h'.writesQueue⟩
  rcases List.mem_append.mp hx with hx | hx
  · exact h.own x hx hbytes
  · obtain rfl := List.mem_singleton.mp hx
    obtain ⟨⟨entry, wq, hto⟩, bytes, hwrote⟩ := Transport.send_bytes hbytes
    -- the file descriptor is open, for a closed one takes nothing
    cases howner : s.owner fd with
    | none =>
      rw [answerOf, if_pos howner] at hwrote
      cases hwrote
    | some peer =>
      refine ⟨peer, rfl, ?_⟩
      simp only [frontDeferred, hto]
      exact h.toWrite fd peer howner entry (hto ▸ List.mem_cons_self)

/-- **One event.** -/
theorem Inv.step (h : Inv s) {event : Event} (hclean : s.Clean event) : Inv (s.step event) := by
  have hself : ∀ fd, ∀ e ∈ s.transport.toWrite fd,
      ∃ e' ∈ s.transport.toWrite fd, e'.deferred = e.deferred := fun fd e he => ⟨e, he, rfl⟩
  have hsame : ∀ running, Inv { s with transport := { s.transport with running } } := fun running =>
    h.frame (fun fd e he => .inl (hself fd e he)) (fun e he => he) fun fd hp => hp
  cases event with
  | accept fd =>
    unfold System.step
    dsimp only
    by_cases hopen : s.owner fd = none
    · rw [if_pos hopen]
      obtain ⟨hempty, hqueue⟩ := hclean hopen
      refine ⟨h.own, fun fd' peer howner e he => ?_, fun fd' peer howner hp e he hfd => ?_⟩
      · by_cases hfd' : fd' = fd
        · subst hfd'
          simp only [hempty] at he
          cases he
        · simp only [Function.update_of_ne hfd'] at howner
          exact h.toWrite fd' peer howner e he
      · by_cases hfd' : fd' = fd
        · subst hfd'
          exact absurd hfd (hqueue hp e he)
        · simp only [Function.update_of_ne hfd'] at howner
          exact h.writesQueue fd' peer howner hp e he hfd
    · rw [if_neg hopen]
      exact h
  | handlePeer fd =>
    unfold System.step
    dsimp only
    cases hopen : s.owner fd with
    | none => exact h
    | some peer =>
      dsimp only
      unfold Transport.handlePeer
      split
      · refine ⟨h.own, h.toWrite, fun fd' peer' howner hp e he hfd => ?_⟩
        by_cases hfd' : fd' = fd
        · subst hfd'
          exact hclean peer' howner e he hfd
        · simp only [Function.update_of_ne hfd'] at hp
          exact h.writesQueue fd' peer' howner hp e he hfd
      · exact h
  | asyncWrite fd buffer =>
    refine ⟨fun x hx hbytes => ?_, fun fd' peer howner e he => ?_,
      fun fd' peer howner hp e he hfd => ?_⟩
    · obtain ⟨peer, hp, hmade⟩ := h.own x hx hbytes
      exact ⟨peer, hp, madeFor_append hmade _⟩
    · exact madeFor_append (h.toWrite fd' peer howner e he) _
    · rcases List.mem_append.mp he with he | he
      · exact madeFor_append (h.writesQueue fd' peer howner hp e he hfd) _
      · obtain rfl := List.mem_singleton.mp he
        simp only at hfd
        refine (madeFor_last s.calls _).trans ?_
        rw [hfd]
        exact howner
  | handleWriteQueue flush =>
    unfold System.step
    dsimp only
    split
    · exact h.handleWriteQueue flush
    · exact h
  | writable fd =>
    unfold System.step
    dsimp only
    split
    · exact hsame _
    · exact h
  | loop =>
    unfold System.step
    dsimp only
    split
    · unfold Transport.loop
      split <;> exact hsame _
    · exact h
  | answer a =>
    unfold System.step
    dsimp only
    split
    · exact h.answer a
    · exact h
  | removePeer fd =>
    refine h.frame (fun fd e he => .inl (hself fd e he)) (fun e he => he) fun fd' hp => ?_
    by_cases hfd' : fd' = fd
    · subst hfd'
      simp [Transport.removePeer] at hp
    · simpa only [Transport.removePeer, Function.update_of_ne hfd'] using hp
  | closeFd fd =>
    have hclosed : Inv { s with
        transport := s.transport.closeFd fd
        owner := Function.update s.owner fd none } := by
      refine ⟨h.own, fun fd' peer howner e he => ?_, fun fd' peer howner hp e he hfd => ?_⟩
      · by_cases hfd' : fd' = fd
        · subst hfd'
          simp at howner
        · simp only [Function.update_of_ne hfd'] at howner
          simp only [Transport.closeFd, Function.update_of_ne hfd'] at he
          exact h.toWrite fd' peer howner e he
      · by_cases hfd' : fd' = fd
        · subst hfd'
          simp at howner
        · simp only [Function.update_of_ne hfd'] at howner
          exact h.writesQueue fd' peer howner hp e he hfd
    unfold System.step
    dsimp only
    split
    · exact h
    · exact hclosed

theorem Inv.run : ∀ (events : List Event) {s : System}, Inv s → s.CleanAll events →
    Inv (s.run events)
  | [], _, h, _ => h
  | _ :: events, _, h, ⟨hclean, hrest⟩ => Inv.run events (h.step hclean) hrest

end System

/-- **Ownership.** In every run in which file descriptors are given to new peers, and peers
registered, only when no write of an earlier owner is queued for them, every byte sent on a file
descriptor was enqueued while the peer that it is sent to was the connected one. -/
theorem ownership (events : List Event) (hclean : ({} : System).CleanAll events) :
    (({} : System).run events).Own :=
  (System.Inv.run events System.Inv.init hclean).own

/-! ### A file descriptor that is used again -/

def farewell : Buffer := .raw ⟨lit "bye", 3, by decide⟩

/-- The write is drained before its peer goes. -/
theorem ownership_drained :
    (({} : System).run [.accept 5, .handlePeer 5, .asyncWrite (some 5) farewell,
      .handleWriteQueue true, .loop, .answer (.wrote 3), .removePeer 5, .closeFd 5, .accept 5,
      .handlePeer 5]).Own := by
  refine ownership _ ⟨fun _ => ⟨rfl, fun h => absurd rfl h⟩, ?_, trivial, trivial, trivial, trivial,
    trivial, trivial, fun _ => ⟨rfl, fun h => absurd rfl h⟩, ?_, trivial⟩
  · exact fun _ _ _ he => nomatch he
  · exact fun _ _ _ he => nomatch he

/-- The write is still in `writesQueue` when its peer goes and a new one gets the file
descriptor; it is sent to the new one. -/
theorem ownership_reused :
    ¬(({} : System).run [.accept 5, .handlePeer 5, .asyncWrite (some 5) farewell, .removePeer 5,
      .closeFd 5, .accept 5, .handlePeer 5, .handleWriteQueue true, .loop, .answer (.wrote 3)]).Own := by
  intro h
  obtain ⟨peer, howner, hmade⟩ := h ⟨5, 0, some 1, lit "bye"⟩ (List.mem_singleton.mpr rfl) (by decide)
  have hsame : (some 1 : Option Peer) = some 0 := (howner.trans hmade.symm).trans rfl
  cases hsame

end Pistache.Tcp
