import Pistache.Tcp.Transport

/-!
# The order of writes

What is handed to the socket of one file descriptor, in any interleaving with the writes of
others, while its peer stays connected and its socket takes bytes or asks to wait.

* `Inv.step` — the bytes handed over and those left are the buffers enqueued, one after the
  other.
* `writeOrder` — over all runs; nothing is left exactly when the whole has been handed over.
-/

set_option autoImplicit false

namespace Pistache.Tcp

variable (fd : Fd)

/-- The buffers enqueued for the file descriptor. -/
def enqueuedFor (calls : List Call) : List Buffer :=
  (calls.filter fun c => c.fd = some fd).map Call.buffer

/-- The bytes handed to its socket. -/
def handedTo (sent : List Sent) : Bytes :=
  ((sent.filter fun s => s.fd = fd).map Sent.bytes).flatten

namespace Transport

/-- What is left of the entries in the deque of the file descriptor. -/
def leftToWrite (t : Transport) : List Bytes :=
  match t.running, t.toWrite fd with
  | .inner fd' totalWritten, entry :: wq =>
    (if fd' = fd then entry.buffer.bytes.drop totalWritten else entry.buffer.rest) ::
      wq.map fun e => e.buffer.rest
  | _, wq => wq.map fun e => e.buffer.rest

/-- The entries queued for the file descriptor, in their order. -/
def queued (t : Transport) : List WriteEntry :=
  t.toWrite fd ++ t.writesQueue.filter fun e => e.peerFd = some fd

/-- What is left of them. -/
def left (t : Transport) : List Bytes :=
  t.leftToWrite fd ++
    (t.writesQueue.filter fun e => e.peerFd = some fd).map fun e => e.buffer.rest

end Transport

/-- The event does not close the connection behind the file descriptor, and its socket takes
bytes or asks to wait. -/
def Event.Keeps (s : System) : Event → Prop
  | .removePeer fd' => fd' ≠ fd
  | .closeFd fd' => fd' ≠ fd
  | .answer a => ∀ n, s.transport.running = .inner fd n →
      a = .again ∨ ∃ bytes, a = .wrote bytes
  | _ => True

/-- So do all events of a run. -/
def System.KeepsAll : System → List Event → Prop
  | _, [] => True
  | s, event :: events => event.Keeps fd s ∧ KeepsAll (s.step event) events

/-- A connection on which nothing is queued: the file descriptor is open and its peer is
registered. -/
structure System.Ready (s : System) : Prop where
  owner : s.owner fd ≠ none
  peer : s.transport.peers_ fd ≠ none
  queued : s.transport.queued fd = []
  running : ∀ n, s.transport.running ≠ .inner fd n

variable {fd} {t : Transport}

/-! ## What is left -/

namespace Transport

theorem leftToWrite_of_not_inner (h : ∀ n, t.running ≠ .inner fd n) :
    t.leftToWrite fd = (t.toWrite fd).map fun e => e.buffer.rest := by
  unfold leftToWrite
  split
  · rename_i fd' n entry wq hrunning hto
    rw [if_neg, hto]
    · rfl
    · rintro rfl
      exact h n hrunning
  · rfl

theorem leftToWrite_inner {n : Nat} {entry : WriteEntry} {wq : List WriteEntry}
    (h : t.running = .inner fd n) (hto : t.toWrite fd = entry :: wq) :
    t.leftToWrite fd = entry.buffer.bytes.drop n :: wq.map fun e => e.buffer.rest := by
  simp only [leftToWrite, h, hto, if_true]

/-- Something is left, be it empty, of each entry that is queued. -/
theorem left_eq_nil_iff : t.left fd = [] ↔ t.queued fd = [] := by
  have hto : t.leftToWrite fd = [] ↔ t.toWrite fd = [] := by
    unfold leftToWrite
    split
    · rename_i hto
      simp [hto]
    · simp
  simp only [left, queued, List.append_eq_nil_iff, hto, List.map_eq_nil_iff]

/-- Entries that stay, while none of them is being sent, are left as they are. -/
theorem left_congr {t' : Transport} (hto : t'.toWrite fd = t.toWrite fd)
    (hqueue : t'.writesQueue = t.writesQueue) (h : ∀ n, t.running ≠ .inner fd n)
    (h' : ∀ n, t'.running ≠ .inner fd n) : t'.left fd = t.left fd := by
  rw [left, left, leftToWrite_of_not_inner h, leftToWrite_of_not_inner h', hto, hqueue]

theorem left_asyncWrite (write : WriteEntry) :
    (t.asyncWrite write).left fd =
      t.left fd ++ if write.peerFd = some fd then [write.buffer.rest] else [] := by
  have hto : (t.asyncWrite write).leftToWrite fd = t.leftToWrite fd := rfl
  rw [left, left, hto, asyncWrite, List.filter_append, List.map_append, List.append_assoc]
  congr 2
  by_cases h : write.peerFd = some fd
  · simp [h]
  · simp [h]

/-- An entry goes from one queue to the other. -/
theorem left_handleWriteQueue (hrunning : t.running = .no) (hpeer : t.peers_ fd ≠ none)
    (flush : Bool) : (t.handleWriteQueue flush).left fd = t.left fd := by
  have hno : ∀ n, t.running ≠ .inner fd n := by simp [hrunning]
  rcases t.handleWriteQueue_cases flush with ⟨-, he⟩ | ⟨write, rest, hqueue, ⟨hdrop, he⟩ |
    ⟨fd', hfd, -, he⟩⟩
  · rw [he]
  · have hne : write.peerFd ≠ some fd := fun hfd => hpeer (hdrop fd hfd)
    have hto : ({ t with writesQueue := rest } : Transport).leftToWrite fd = t.leftToWrite fd := rfl
    rw [he, left, left, hto, hqueue, List.filter_cons_of_neg (by simpa using hne)]
  · rw [he]
    have hno' : ∀ n, (if flush then Running.top fd' else t.running) ≠ .inner fd n := by
      intro n
      cases flush <;> simp [hrunning]
    rw [left, left, leftToWrite_of_not_inner hno, leftToWrite_of_not_inner hno', hqueue]
    by_cases hsame : fd' = fd
    · subst hsame
      rw [List.filter_cons_of_pos (by simpa using hfd)]
      simp
    · rw [List.filter_cons_of_neg (by rw [hfd]; simpa using hsame)]
      simp only [Function.update_of_ne (Ne.symm hsame)]

theorem left_loop {fd' : Fd} (hrunning : t.running = .top fd') :
    (t.loop fd').left fd = t.left fd := by
  have hno : ∀ n, t.running ≠ .inner fd n := by simp [hrunning]
  unfold loop
  cases hto : t.toWrite fd' with
  | nil => exact left_congr rfl rfl hno (fun n => Running.noConfusion)
  | cons entry wq =>
    dsimp only
    by_cases he : fd' = fd
    · subst he
      have hinner : ({ t with running := .inner fd' entry.buffer.offset } : Transport).leftToWrite fd' =
          entry.buffer.rest :: wq.map fun e => e.buffer.rest := leftToWrite_inner rfl hto
      rw [left, left, leftToWrite_of_not_inner hno, hinner, hto]
      rfl
    · refine left_congr rfl rfl hno fun n h => ?_
      injection h with h
      exact he h

/-- **One answer of the socket**: what is handed over is taken from what is left. -/
theorem send_left {n : Nat} {entry : WriteEntry} {wq : List WriteEntry} {answer : Answer}
    (hrunning : t.running = .inner fd n) (hto : t.toWrite fd = entry :: wq)
    (hn : n ≤ entry.buffer.size) (hanswer : answer = .again ∨ ∃ bytes, answer = .wrote bytes) :
    (t.send fd n answer).1 ++ ((t.send fd n answer).2.left fd).flatten = (t.left fd).flatten ∧
      (∀ m, (t.send fd n answer).2.running = .inner fd m →
        ∃ entry wq, (t.send fd n answer).2.toWrite fd = entry :: wq ∧ m ≤ entry.buffer.size) ∧
      ∀ e ∈ (t.send fd n answer).2.toWrite fd,
        e ∈ t.toWrite fd ∨ e.buffer.offset ≤ e.buffer.size := by
  have hleft : t.left fd = (entry.buffer.bytes.drop n :: wq.map fun e => e.buffer.rest) ++
      (t.writesQueue.filter fun e => e.peerFd = some fd).map fun e => e.buffer.rest := by
    rw [left, leftToWrite_inner hrunning hto]
  have hlen := entry.buffer.bytes_length
  rcases hanswer with rfl | ⟨bytes, rfl⟩
  · -- the rest goes back to the front of the deque
    obtain ⟨buffer, hdetach, hrest, hoffset⟩ := BufferHolder.detach_eq hn
    simp only [send, hto, hdetach, List.nil_append]
    refine ⟨?_, fun m => Running.noConfusion, fun e he => ?_⟩
    · rw [left, leftToWrite_of_not_inner (fun m => Running.noConfusion), hleft]
      simp [hrest]
    · rw [Function.update_self] at he
      rcases List.mem_cons.mp he with rfl | he
      · exact .inr hoffset
      · exact .inl (List.mem_cons_of_mem entry he)
  · simp only [send, hto]
    by_cases hdone : n + min bytes (entry.buffer.size - n) ≥ entry.buffer.size
    · -- the entry has been written
      rw [if_pos hdone]
      refine ⟨?_, fun m hm => ?_, fun e he => .inl ?_⟩
      · have hno : ∀ m, (t.cleanUp fd wq).running ≠ .inner fd m := by
          intro m
          unfold cleanUp
          dsimp only
          split <;> exact Running.noConfusion
        rw [left, leftToWrite_of_not_inner hno, hleft, List.take_of_length_le (by
          rw [List.length_drop]; omega)]
        simp [cleanUp]
      · unfold cleanUp at hm
        dsimp only at hm
        split at hm <;> cases hm
      · simp only [cleanUp, Function.update_self] at he
        exact List.mem_cons_of_mem entry he
    · rw [if_neg hdone]
      refine ⟨?_, fun m hm => ?_, fun e he => .inl ?_⟩
      · have hsplit : (entry.buffer.bytes.drop n).take (min bytes (entry.buffer.size - n)) ++
            entry.buffer.bytes.drop (n + min bytes (entry.buffer.size - n)) =
            entry.buffer.bytes.drop n := by
          rw [← List.drop_drop, List.take_append_drop]
        have hinner : ({ t with
            running := .inner fd (n + min bytes (entry.buffer.size - n)) } : Transport).leftToWrite fd =
            entry.buffer.bytes.drop (n + min bytes (entry.buffer.size - n)) ::
              wq.map fun e => e.buffer.rest := leftToWrite_inner rfl hto
        rw [left, hinner, hleft]
        simp only [List.cons_append, List.flatten_cons]
        rw [← List.append_assoc, hsplit]
      · obtain ⟨-, rfl⟩ := Running.inner.inj hm
        exact ⟨entry, wq, hto, by omega⟩
      · exact hto ▸ he

end Transport

/-- What is handed over and what is left are the buffers enqueued.  The offsets lie inside the
buffers, and the entry that is being sent is in the deque. -/
structure Inv (fd : Fd) (s : System) (enqueued : List Buffer) (handed : Bytes) : Prop where
  owner : s.owner fd ≠ none
  peer : s.transport.peers_ fd ≠ none
  inner : ∀ n, s.transport.running = .inner fd n →
    ∃ entry wq, s.transport.toWrite fd = entry :: wq ∧ n ≤ entry.buffer.size
  toWrite : ∀ e ∈ s.transport.toWrite fd, e.buffer.offset ≤ e.buffer.size
  writesQueue : ∀ e ∈ s.transport.writesQueue, e.peerFd = some fd →
    e.buffer.offset ≤ e.buffer.size
  bytes : handed ++ (s.transport.left fd).flatten = (enqueued.map Buffer.bytes).flatten

namespace Inv

variable {s : System} {enqueued : List Buffer} {handed : Bytes}

theorem ready (h : s.Ready fd) : Inv fd s [] [] := by
  obtain ⟨hto, hqueue⟩ := List.append_eq_nil_iff.mp h.queued
  refine ⟨h.owner, h.peer, fun n hn => absurd hn (h.running n), fun e he => ?_,
    fun e he hfd => ?_, ?_⟩
  · rw [hto] at he
    cases he
  · exact absurd hfd (by simpa using List.filter_eq_nil_iff.mp hqueue e he)
  · rw [Transport.left_eq_nil_iff.mpr h.queued]
    rfl

/-- An event that neither enqueues nor hands over anything for the file descriptor. -/
theorem frame (h : Inv fd s enqueued handed) {s' : System} (howner : s'.owner fd ≠ none)
    (hpeer : s'.transport.peers_ fd ≠ none)
    (hinner : ∀ n, s'.transport.running = .inner fd n →
      ∃ entry wq, s'.transport.toWrite fd = entry :: wq ∧ n ≤ entry.buffer.size)
    (hto : ∀ e ∈ s'.transport.toWrite fd,
      e ∈ s.transport.toWrite fd ∨ e ∈ s.transport.writesQueue ∧ e.peerFd = some fd)
    (hqueue : ∀ e ∈ s'.transport.writesQueue, e ∈ s.transport.writesQueue)
    (hleft : s'.transport.left fd = s.transport.left fd) : Inv fd s' enqueued handed where
  owner := howner
  peer := hpeer
  inner := hinner
  toWrite e he := (hto e he).elim (h.toWrite e) fun ⟨he, hfd⟩ => h.writesQueue e he hfd
  writesQueue e he := h.writesQueue e (hqueue e he)
  bytes := by rw [hleft]; exact h.bytes

theorem handleWriteQueue (h : Inv fd s enqueued handed) (flush : Bool) :
    Inv fd (s.step (.handleWriteQueue flush)) enqueued handed := by
  unfold System.step
  dsimp only
  by_cases hno : s.transport.running = .no
  · rw [if_pos hno]
    have hleft := Transport.left_handleWriteQueue hno h.peer flush
    rcases s.transport.handleWriteQueue_cases flush with ⟨-, he⟩ | ⟨write, rest, hqueue,
      ⟨-, he⟩ | ⟨fd', hfd, -, he⟩⟩
    · rw [he]
      exact h
    · rw [he] at hleft ⊢
      refine h.frame h.owner h.peer h.inner (fun e he => .inl he) (fun e he => ?_) hleft
      rw [hqueue]
      exact List.mem_cons_of_mem write he
    · rw [he] at hleft ⊢
      refine h.frame h.owner h.peer (fun n hn => ?_) (fun e he => ?_) (fun e he => ?_) hleft
      · exfalso
        cases flush <;> simp [hno] at hn
      · by_cases hsame : fd = fd'
        · subst hsame
          simp only [Function.update_self] at he
          rcases List.mem_append.mp he with he | he
          · exact .inl he
          · obtain rfl := List.mem_singleton.mp he
            exact .inr ⟨hqueue ▸ List.mem_cons_self, hfd⟩
        · simp only [Function.update_of_ne hsame] at he
          exact .inl he
      · rw [hqueue]
        exact List.mem_cons_of_mem write he
  · rw [if_neg hno]
    exact h

theorem asyncWrite (h : Inv fd s enqueued handed) (fd' : Option Fd) (buffer : Buffer) :
    Inv fd (s.step (.asyncWrite fd' buffer))
      (enqueued ++ if fd' = some fd then [buffer] else []) handed where
  owner := h.owner
  peer := h.peer
  inner := h.inner
  toWrite := h.toWrite
  writesQueue e he hfd := by
    rcases List.mem_append.mp he with he | he
    · exact h.writesQueue e he hfd
    · obtain rfl := List.mem_singleton.mp he
      simp
  bytes := by
    change handed ++ ((s.transport.asyncWrite _).left fd).flatten = _
    rw [Transport.left_asyncWrite, List.flatten_append, ← List.append_assoc, h.bytes,
      List.map_append, List.flatten_append]
    by_cases he : fd' = some fd
    · simp [he]
    · simp [he]

theorem answer (h : Inv fd s enqueued handed) {fd' : Fd} {n : Nat} {answer : Answer}
    (hrunning : s.transport.running = .inner fd' n)
    (hanswer : fd' = fd → answer = .again ∨ ∃ bytes, answer = .wrote bytes) (sent : List Sent) :
    Inv fd { s with transport := (s.transport.send fd' n (s.answerOf fd' answer)).2, sent }
      enqueued (handed ++ if fd' = fd then
        (s.transport.send fd' n (s.answerOf fd' answer)).1 else []) := by
  obtain ⟨hqueue, hpeers⟩ := s.transport.send_frame fd' n (s.answerOf fd' answer)
  by_cases hsame : fd' = fd
  · subst hsame
    obtain ⟨entry, wq, hto, hn⟩ := h.inner n hrunning
    rw [System.answerOf, if_neg h.owner] at hqueue hpeers ⊢
    obtain ⟨hleft, hinner, hmem⟩ := Transport.send_left hrunning hto hn (hanswer rfl)
    refine ⟨h.owner, by rw [hpeers]; exact h.peer, hinner, fun e he => ?_, fun e he => ?_, ?_⟩
    · exact (hmem e he).elim (h.toWrite e) id
    · exact h.writesQueue e (hqueue ▸ he)
    · rw [if_pos rfl, List.append_assoc, hleft]
      exact h.bytes
  · obtain ⟨hto, hno⟩ := Transport.send_other (t := s.transport) hsame n (s.answerOf fd' answer)
    have hno' : ∀ m, s.transport.running ≠ .inner fd m := by
      intro m hm
      rw [hrunning] at hm
      exact hsame (Running.inner.inj hm).1
    rw [if_neg hsame, List.append_nil]
    refine h.frame h.owner (by rw [hpeers]; exact h.peer) (fun m hm => absurd hm (hno m))
      (fun e he => .inl (hto ▸ he)) (fun e he => hqueue ▸ he) ?_
    exact Transport.left_congr hto hqueue hno' hno

end Inv

/-- **One event**: what it enqueues for the file descriptor and what it hands to the socket. -/
theorem Inv.step {s : System} {enqueued : List Buffer} {handed : Bytes}
    (h : Inv fd s enqueued handed) {event : Event} (hkeeps : event.Keeps fd s) :
    ∃ calls sent, (s.step event).calls = s.calls ++ calls ∧
      (s.step event).sent = s.sent ++ sent ∧
      Inv fd (s.step event) (enqueued ++ enqueuedFor fd calls) (handed ++ handedTo fd sent) := by
  have hquiet : ∀ s' : System, s'.calls = s.calls → s'.sent = s.sent → Inv fd s' enqueued handed →
      ∃ calls sent, s'.calls = s.calls ++ calls ∧ s'.sent = s.sent ++ sent ∧
        Inv fd s' (enqueued ++ enqueuedFor fd calls) (handed ++ handedTo fd sent) :=
    fun s' hcalls hsent h' => ⟨[], [], by simp [hcalls], by simp [hsent], by
      simpa [enqueuedFor, handedTo] using h'⟩
  cases event with
  | accept fd' =>
    unfold System.step
    dsimp only
    by_cases hopen : s.owner fd' = none
    · rw [if_pos hopen]
      have hne : fd ≠ fd' := by
        rintro rfl
        exact h.owner hopen
      refine hquiet _ rfl rfl (h.frame ?_ h.peer h.inner (fun e he => .inl he) (fun e he => he) rfl)
      simpa only [Function.update_of_ne hne] using h.owner
    · rw [if_neg hopen]
      exact hquiet s rfl rfl h
  | handlePeer fd' =>
    unfold System.step
    dsimp only
    cases hopen : s.owner fd' with
    | none => exact hquiet s rfl rfl h
    | some peer =>
      refine hquiet _ rfl rfl ?_
      dsimp only
      unfold Transport.handlePeer
      by_cases hp : s.transport.peers_ fd' = none
      · rw [if_pos hp]
        have hne : fd ≠ fd' := by
          rintro rfl
          exact h.peer hp
        refine h.frame h.owner ?_ h.inner (fun e he => .inl he) (fun e he => he) rfl
        simpa only [Function.update_of_ne hne] using h.peer
      · rw [if_neg hp]
        exact h
  | asyncWrite fd' buffer =>
    refine ⟨[⟨fd', buffer, fd'.bind s.owner⟩], [], rfl, by simp [System.step], ?_⟩
    have h' := h.asyncWrite fd' buffer
    by_cases he : fd' = some fd
    · simpa [enqueuedFor, handedTo, he] using h'
    · simpa [enqueuedFor, handedTo, he] using h'
  | handleWriteQueue flush =>
    refine hquiet _ ?_ ?_ (h.handleWriteQueue flush)
    · unfold System.step
      dsimp only
      split <;> rfl
    · unfold System.step
      dsimp only
      split <;> rfl
  | writable fd' =>
    unfold System.step
    dsimp only
    by_cases hno : s.transport.running = .no
    · rw [if_pos hno]
      refine hquiet _ rfl rfl (h.frame h.owner h.peer (fun n => Running.noConfusion)
        (fun e he => .inl he) (fun e he => he) ?_)
      exact Transport.left_congr rfl rfl (by simp [hno]) (fun n => Running.noConfusion)
    · rw [if_neg hno]
      exact hquiet s rfl rfl h
  | loop =>
    unfold System.step
    dsimp only
    cases hrunning : s.transport.running with
    | no => exact hquiet s rfl rfl h
    | inner fd' n => exact hquiet s rfl rfl h
    | top fd' =>
      have hleft : (s.transport.loop fd').left fd = s.transport.left fd :=
        Transport.left_loop hrunning
      refine hquiet _ rfl rfl ?_
      dsimp only
      unfold Transport.loop at hleft ⊢
      cases hto : s.transport.toWrite fd' with
      | nil =>
        simp only [hto] at hleft
        exact h.frame h.owner h.peer (fun n => Running.noConfusion) (fun e he => .inl he)
          (fun e he => he) hleft
      | cons entry wq =>
        simp only [hto] at hleft
        refine h.frame h.owner h.peer (fun n hn => ?_) (fun e he => .inl he) (fun e he => he) hleft
        obtain ⟨rfl, rfl⟩ := Running.inner.inj hn
        exact ⟨entry, wq, hto, h.toWrite entry (hto ▸ List.mem_cons_self)⟩
  | answer a =>
    unfold System.step
    dsimp only
    cases hrunning : s.transport.running with
    | no => exact hquiet s rfl rfl h
    | top fd' => exact hquiet s rfl rfl h
    | inner fd' n =>
      refine ⟨[], [⟨fd', s.frontDeferred fd', s.owner fd',
        (s.transport.send fd' n (s.answerOf fd' a)).1⟩], by simp, rfl, ?_⟩
      have h' := h.answer hrunning
        (by rintro rfl; exact hkeeps n hrunning : fd' = fd → a = .again ∨ ∃ bytes, a = .wrote bytes)
        (s.sent ++ [⟨fd', s.frontDeferred fd', s.owner fd',
          (s.transport.send fd' n (s.answerOf fd' a)).1⟩])
      by_cases he : fd' = fd
      · simpa [enqueuedFor, handedTo, he] using h'
      · simpa [enqueuedFor, handedTo, he] using h'
  | removePeer fd' =>
    refine hquiet _ rfl rfl (h.frame h.owner ?_ h.inner (fun e he => .inl he) (fun e he => he) rfl)
    change Function.update s.transport.peers_ fd' none fd ≠ none
    rw [Function.update_of_ne (Ne.symm hkeeps)]
    exact h.peer
  | closeFd fd' =>
    have hne : fd ≠ fd' := Ne.symm hkeeps
    unfold System.step
    dsimp only
    have hclosed : (∀ n, s.transport.running ≠ .inner fd n) → Inv fd
        { s with
          transport := s.transport.closeFd fd'
          owner := Function.update s.owner fd' none } enqueued handed := by
      intro hno
      have hto : (s.transport.closeFd fd').toWrite fd = s.transport.toWrite fd :=
        Function.update_of_ne hne _ _
      refine h.frame ?_ h.peer (fun n hn => absurd hn (hno n)) (fun e he => .inl (hto ▸ he))
        (fun e he => he) (Transport.left_congr hto rfl hno hno)
      simpa only [Function.update_of_ne hne] using h.owner
    cases hrunning : s.transport.running with
    | no => exact hquiet _ rfl rfl (hclosed (by simp [hrunning]))
    | top fd'' => exact hquiet _ rfl rfl (hclosed (by simp [hrunning]))
    | inner fd'' n => exact hquiet s rfl rfl h

theorem Inv.run : ∀ (events : List Event) {s : System} {enqueued : List Buffer} {handed : Bytes},
    Inv fd s enqueued handed → s.KeepsAll fd events →
    ∃ calls sent, (s.run events).calls = s.calls ++ calls ∧
      (s.run events).sent = s.sent ++ sent ∧
      Inv fd (s.run events) (enqueued ++ enqueuedFor fd calls) (handed ++ handedTo fd sent)
  | [], s, enqueued, handed, h, _ => ⟨[], [], by simp [System.run], by simp [System.run], by
      simpa [enqueuedFor, handedTo, System.run] using h⟩
  | event :: events, s, enqueued, handed, h, ⟨hkeeps, hrest⟩ => by
    obtain ⟨calls, sent, hcalls, hsent, h'⟩ := h.step hkeeps
    obtain ⟨calls', sent', hcalls', hsent', h''⟩ := Inv.run events h' hrest
    refine ⟨calls ++ calls', sent ++ sent', ?_, ?_, ?_⟩
    · rw [System.run, hcalls', hcalls, List.append_assoc]
    · rw [System.run, hsent', hsent, List.append_assoc]
    · simpa [enqueuedFor, handedTo, System.run] using h''

/-- **The order of writes.** What has been handed to the socket, followed by what is left of the
entries queued, is what has been enqueued, in order.  The whole has been handed over exactly
when no queued entry has a byte left, and so in particular when the queue is empty. -/
theorem writeOrder (s : System) (h : s.Ready fd) (events : List Event)
    (hkeeps : s.KeepsAll fd events) :
    ∃ calls sent, (s.run events).calls = s.calls ++ calls ∧
      (s.run events).sent = s.sent ++ sent ∧
      handedTo fd sent ++ ((s.run events).transport.left fd).flatten =
        ((enqueuedFor fd calls).map Buffer.bytes).flatten ∧
      (handedTo fd sent = ((enqueuedFor fd calls).map Buffer.bytes).flatten ↔
        ∀ bytes ∈ (s.run events).transport.left fd, bytes = []) ∧
      ((s.run events).transport.queued fd = [] →
        handedTo fd sent = ((enqueuedFor fd calls).map Buffer.bytes).flatten) := by
  obtain ⟨calls, sent, hcalls, hsent, hinv⟩ := Inv.run events (Inv.ready h) hkeeps
  have hbytes : handedTo fd sent ++ ((s.run events).transport.left fd).flatten =
      ((enqueuedFor fd calls).map Buffer.bytes).flatten := hinv.bytes
  have hwhole : handedTo fd sent = ((enqueuedFor fd calls).map Buffer.bytes).flatten ↔
      ∀ bytes ∈ (s.run events).transport.left fd, bytes = [] := by
    rw [← hbytes, List.self_eq_append_right, List.flatten_eq_nil_iff]
  refine ⟨calls, sent, hcalls, hsent, hbytes, hwhole, fun hnil => hwhole.mpr ?_⟩
  rw [Transport.left_eq_nil_iff.mpr hnil]
  exact fun _ hb => nomatch hb

/-! ### A head and an empty file -/

/-- A connection that has been accepted. -/
def connected : System := ({} : System).run [.accept 0, .handlePeer 0]

/-- The head of a response and the file behind it, of which the socket takes the head. -/
def emptyFile : List Event :=
  [.asyncWrite (some 0) (.raw ⟨lit "HTTP/1.1 200 OK", 15, by decide⟩), .asyncWrite (some 0) (.file []),
    .handleWriteQueue false, .handleWriteQueue false, .writable 0, .loop, .answer (.wrote 10),
    .answer .again, .writable 0, .loop, .answer (.wrote 5)]

theorem connected_ready : connected.Ready 0 := ⟨by decide, by decide, rfl, fun _ => Running.noConfusion⟩

theorem emptyFile_keeps : connected.KeepsAll 0 emptyFile :=
  ⟨trivial, trivial, trivial, trivial, trivial, trivial, fun _ _ => .inr ⟨10, rfl⟩,
    fun _ _ => .inl rfl, trivial, trivial, fun _ _ => .inr ⟨5, rfl⟩, trivial⟩

theorem writeOrder_connected :
    ∃ calls sent, (connected.run emptyFile).calls = connected.calls ++ calls ∧
      (connected.run emptyFile).sent = connected.sent ++ sent ∧
      handedTo 0 sent ++ ((connected.run emptyFile).transport.left 0).flatten =
        ((enqueuedFor 0 calls).map Buffer.bytes).flatten ∧
      (handedTo 0 sent = ((enqueuedFor 0 calls).map Buffer.bytes).flatten ↔
        ∀ bytes ∈ (connected.run emptyFile).transport.left 0, bytes = []) ∧
      ((connected.run emptyFile).transport.queued 0 = [] →
        handedTo 0 sent = ((enqueuedFor 0 calls).map Buffer.bytes).flatten) :=
  writeOrder connected connected_ready emptyFile emptyFile_keeps

/-- All bytes have been handed over, and the empty file is still queued. -/
theorem emptyFile_queued :
    connected.Ready 0 ∧ connected.KeepsAll 0 emptyFile ∧
      ¬(handedTo 0 (connected.run emptyFile).sent =
          ((enqueuedFor 0 (connected.run emptyFile).calls).map Buffer.bytes).flatten ↔
        (connected.run emptyFile).transport.queued 0 = []) := by
  refine ⟨connected_ready, emptyFile_keeps, fun h => ?_⟩
  have hnil := h.mp (by decide)
  have hlen : ((connected.run emptyFile).transport.queued 0).length = 1 := by decide
  rw [hnil] at hlen
  cases hlen

end Pistache.Tcp
