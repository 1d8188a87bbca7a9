import Pistache.Lib.Machine
import Pistache.Tcp.Transport

/-!
# The readiness of sockets

`Transport` with the poller that tells its thread which sockets can be read and written.  The
poller is edge-triggered: it reports once, in one event, the flags of interest that have become
true since the file descriptor was last reported or its registration changed.  A change of the
registration looks at the socket, so it does not matter whether a socket becomes ready just
before or just after it.

* `Inv.step` — a deque that is not empty is being drained, will be for an event that is on its
  way, or waits for its socket to become writable.
* `no_stranded_write` — all runs in which no event handled reports both flags of a file
  descriptor whose deque is not empty.

The events of timers, of new peers and of the notifier, and the flags of a hangup, are left out;
a new peer is handled at its own event.
-/

set_option autoImplicit false

namespace Pistache.Tcp

/-- `NotifyOn`. -/
structure Flags where
  read : Bool := false
  write : Bool := false
  deriving DecidableEq

namespace Flags

def inter (flags other : Flags) : Flags := ⟨flags.read && other.read, flags.write && other.write⟩

def union (flags other : Flags) : Flags := ⟨flags.read || other.read, flags.write || other.write⟩

end Flags

/-! ## The poller -/

/-- The interest list, the sockets' readiness and what is to be reported. -/
structure Epoll where
  interest : Fd → Option Flags := fun _ => none
  ready : Fd → Flags := fun _ => {}
  pending : Fd → Flags := fun _ => {}

namespace Epoll

/-- `none` stands for the exception. -/
def addFd (epoll : Epoll) (fd : Fd) (interest : Flags) : Option Epoll :=
  match epoll.interest fd with
  | some _ => none
  | none => some { epoll with
      interest := Function.update epoll.interest fd (some interest)
      pending := Function.update epoll.pending fd ((epoll.ready fd).inter interest) }

def removeFd (epoll : Epoll) (fd : Fd) : Option Epoll :=
  match epoll.interest fd with
  | none => none
  | some _ => some { epoll with
      interest := Function.update epoll.interest fd none
      pending := Function.update epoll.pending fd {} }

def rearmFd (epoll : Epoll) (fd : Fd) (interest : Flags) : Option Epoll :=
  match epoll.interest fd with
  | none => none
  | some _ => some { epoll with
      interest := Function.update epoll.interest fd (some interest)
      pending := Function.update epoll.pending fd ((epoll.ready fd).inter interest) }

/-- Flags of a socket become true. -/
def becomes (epoll : Epoll) (fd : Fd) (flags : Flags) : Epoll :=
  { epoll with
    ready := Function.update epoll.ready fd ((epoll.ready fd).union flags)
    pending := match epoll.interest fd with
      | none => epoll.pending
      | some interest =>
        Function.update epoll.pending fd ((epoll.pending fd).union (flags.inter interest)) }

/-- All input of a socket has been read. -/
def drained (epoll : Epoll) (fd : Fd) : Epoll :=
  { epoll with ready := Function.update epoll.ready fd ⟨false, (epoll.ready fd).write⟩ }

/-- The buffer of a socket is full. -/
def full (epoll : Epoll) (fd : Fd) : Epoll :=
  { epoll with ready := Function.update epoll.ready fd ⟨(epoll.ready fd).read, false⟩ }

/-- The socket behind the file descriptor is closed. -/
def closed (epoll : Epoll) (fd : Fd) : Epoll :=
  { epoll with ready := Function.update epoll.ready fd {} }

/-- The event of a file descriptor is reported. -/
def poll (epoll : Epoll) (fd : Fd) : Epoll :=
  { epoll with pending := Function.update epoll.pending fd {} }

end Epoll

/-! ## The transport with its poller -/

/-- An entry of the `FdSet` given to `onReady`. -/
inductive Entry where
  | writesQueue
  | socket (fd : Fd) (flags : Flags)

/-- The system, its poller, whether the event of `writesQueue` is to be reported, the events
that have been reported and not handled, whether the loop of `handleWriteQueue` is running, and
whether an exception has left `onReady`, which ends the process. -/
structure Polled where
  system : System := {}
  epoll : Epoll := {}
  queued : Bool := false
  fds : List Entry := []
  draining : Bool := false
  thrown : Bool := false

inductive Polled.Event where
  | accept (fd : Fd)
  | handlePeer (fd : Fd)
  | asyncWrite (fd : Option Fd) (buffer : Buffer)
  /-- Input arrives, or a peer takes what has been sent to it. -/
  | becomes (fd : Fd) (flags : Flags)
  | full (fd : Fd)
  /-- `Epoll::poll` reports the event of `writesQueue`. -/
  | pollQueue
  /-- `Epoll::poll` reports the event of a socket. -/
  | poll (fd : Fd)
  | onReady
  | handleWriteQueue
  | loop
  | answer (answer : Answer)
  | handlePeerDisconnection (fd : Fd)

namespace Polled

def modifyFd (s : Polled) (system : System) (fd : Fd) (interest : Flags) : Polled :=
  match s.epoll.rearmFd fd interest with
  | none => { s with thrown := true }
  | some epoll => { s with system, epoll }

/-- The interest after one pass of the inner loop of `asyncWriteImpl`, when it is modified: for
an `EAGAIN`, or by a `cleanUp` that leaves the deque empty. -/
def interestAfter (t : Transport) (fd : Fd) (totalWritten : Nat) (answer : Answer) :
    Option Flags :=
  match t.toWrite fd with
  | [] => none
  | entry :: wq =>
    match answer with
    | .wrote n =>
      let totalWritten := totalWritten + min n (entry.buffer.size - totalWritten)
      if totalWritten ≥ entry.buffer.size ∧ wq = [] then some ⟨true, false⟩ else none
    | .again => some ⟨true, true⟩
    | .gone => none
    | .failed => if wq = [] then some ⟨true, false⟩ else none

/-- One entry of the `FdSet`. -/
def onReady (s : Polled) : Polled :=
  match s.fds with
  | [] => s
  | .writesQueue :: fds => { s with fds, draining := true }
  | .socket fd flags :: fds =>
    if flags.read then
      -- `handleIncoming`, for the file descriptor of a peer
      if s.system.transport.peers_ fd = none then { s with fds }
      else { s with fds, epoll := s.epoll.drained fd }
    else if flags.write then
      ({ s with fds } : Polled).modifyFd (s.system.step (.writable fd)) fd ⟨true, false⟩
    else { s with fds }

/-- One pass of the loop of `handleWriteQueue`. -/
def handleWriteQueue (s : Polled) : Polled :=
  match s.system.transport.writesQueue with
  | [] => { s with draining := false }
  | write :: _ =>
    match write.peerFd with
    | none => { s with system := s.system.step (.handleWriteQueue false) }
    | some fd =>
      if s.system.transport.peers_ fd = none then
        { s with system := s.system.step (.handleWriteQueue false) }
      else s.modifyFd (s.system.step (.handleWriteQueue false)) fd ⟨true, true⟩

/-- One pass of the inner loop of `asyncWriteImpl`. -/
def answer (s : Polled) (fd : Fd) (totalWritten : Nat) (answer : Answer) : Polled :=
  let system := s.system.step (.answer answer)
  let answer := s.system.answerOf fd answer
  let s := if answer = .again then { s with epoll := s.epoll.full fd } else s
  match interestAfter s.system.transport fd totalWritten answer with
  | none => { s with system }
  | some interest => s.modifyFd system fd interest

/-- What cannot happen in a state changes nothing.  Nothing happens in a process that has
ended; `onReady` goes to its next entry when it has done with the one before; a peer that is
not registered cannot disconnect. -/
def step (s : Polled) (event : Event) : Polled :=
  if s.thrown then s
  else match event with
  | .accept fd => { s with system := s.system.step (.accept fd) }
  | .handlePeer fd =>
    if s.system.owner fd = none then s
    else match s.epoll.addFd fd ⟨true, false⟩ with
      | none => { s with thrown := true }
      | some epoll => { s with system := s.system.step (.handlePeer fd), epoll }
  | .asyncWrite fd buffer =>
    { s with system := s.system.step (.asyncWrite fd buffer), queued := true }
  | .becomes fd flags => { s with epoll := s.epoll.becomes fd flags }
  | .full fd => { s with epoll := s.epoll.full fd }
  | .pollQueue =>
    if s.queued then { s with queued := false, fds := s.fds ++ [.writesQueue] } else s
  | .poll fd =>
    if s.epoll.pending fd = {} then s
    else { s with
      epoll := s.epoll.poll fd
      fds := s.fds ++ [.socket fd (s.epoll.pending fd)] }
  | .onReady => if s.draining ∨ s.system.transport.running ≠ .no then s else s.onReady
  | .handleWriteQueue =>
    if s.draining ∧ s.system.transport.running = .no then s.handleWriteQueue else s
  | .loop => { s with system := s.system.step .loop }
  | .answer answer =>
    match s.system.transport.running with
    | .inner fd totalWritten => s.answer fd totalWritten answer
    | _ => s
  | .handlePeerDisconnection fd =>
    match s.system.transport.running with
    | .inner .. => s
    | _ =>
      if s.system.transport.peers_ fd = none then s
      else match s.epoll.removeFd fd with
        | none => { s with thrown := true }
        | some epoll =>
          { s with
            system := (s.system.step (.removePeer fd)).step (.closeFd fd)
            epoll := epoll.closed fd }

/-! ## What a deque waits for -/

/-- No event is undelivered, and the thread waits in `poll`. -/
structure Idle (s : Polled) : Prop where
  running : s.system.transport.running = .no
  draining : s.draining = false
  fds : s.fds = []
  queued : s.queued = false
  pending : ∀ fd, s.epoll.pending fd = {}
  thrown : s.thrown = false

/-- The next event handled does not report a socket both readable and writable, unless nothing
is to be written to it. -/
def Apart (s : Polled) : Event → Prop
  | .onReady => s.draining = false → s.system.transport.running = .no →
      ∀ fd flags fds, s.fds = .socket fd flags :: fds → flags.read = true → flags.write = true →
        s.system.transport.toWrite fd = []
  | _ => True

/-- The deque is being drained, or will be for an event that has been reported, or its socket is
waited for and not writable yet, or it is and that is to be reported. -/
def Served (s : Polled) (fd : Fd) : Prop :=
  s.system.transport.running = .top fd ∨ (∃ n, s.system.transport.running = .inner fd n) ∨
    (∃ flags, .socket fd flags ∈ s.fds ∧ flags.write = true) ∨
    ∃ interest, s.epoll.interest fd = some interest ∧ interest.write = true ∧
      ((s.epoll.ready fd).write = true → (s.epoll.pending fd).write = true)

structure Inv (s : Polled) : Prop where
  registered : ∀ fd, s.system.transport.toWrite fd ≠ [] → s.epoll.interest fd ≠ none
  peers : ∀ fd, s.system.transport.peers_ fd ≠ none → s.epoll.interest fd ≠ none
  served : ∀ fd, s.system.transport.toWrite fd ≠ [] → s.Served fd

namespace Inv

variable {s s' : Polled}

/-- Neither the deques, nor the peers, nor the poller are concerned. -/
theorem congr (h : Inv s) (hto : s'.system.transport.toWrite = s.system.transport.toWrite)
    (hpeers : s'.system.transport.peers_ = s.system.transport.peers_)
    (hrunning : s'.system.transport.running = s.system.transport.running)
    (hepoll : s'.epoll = s.epoll)
    (hfds : ∀ fd flags, .socket fd flags ∈ s.fds → flags.write = true →
      s.system.transport.toWrite fd ≠ [] → .socket fd flags ∈ s'.fds) : Inv s' where
  registered fd hne := by
    rw [hto] at hne
    rw [hepoll]
    exact h.registered fd hne
  peers fd hne := by
    rw [hpeers] at hne
    rw [hepoll]
    exact h.peers fd hne
  served fd hne := by
    rw [hto] at hne
    unfold Served
    rw [hrunning, hepoll]
    rcases h.served fd hne with h | h | ⟨flags, hmem, hw⟩ | h
    · exact .inl h
    · exact .inr (.inl h)
    · exact .inr (.inr (.inl ⟨flags, hfds fd flags hmem hw hne, hw⟩))
    · exact .inr (.inr (.inr h))

/-- Only the poller is concerned. -/
theorem of_epoll (h : Inv s) (hsystem : s'.system = s.system) (hfds : s'.fds = s.fds)
    (hinterest : s'.epoll.interest = s.epoll.interest)
    (hready : ∀ fd interest, s.epoll.interest fd = some interest → interest.write = true →
      ((s.epoll.ready fd).write = true → (s.epoll.pending fd).write = true) →
      (s'.epoll.ready fd).write = true → (s'.epoll.pending fd).write = true) : Inv s' where
  registered := by
    rw [hsystem, hinterest]
    exact h.registered
  peers := by
    rw [hsystem, hinterest]
    exact h.peers
  served fd hne := by
    unfold Served
    rw [hsystem] at hne
    rw [hsystem, hinterest, hfds]
    rcases h.served fd hne with h | h | h | ⟨interest, hi, hw, hp⟩
    · exact .inl h
    · exact .inr (.inl h)
    · exact .inr (.inr (.inl h))
    · exact .inr (.inr (.inr ⟨interest, hi, hw, hready fd interest hi hw hp⟩))

theorem becomes (h : Inv s) (fd : Fd) (flags : Flags) :
    Inv { s with epoll := s.epoll.becomes fd flags } := by
  refine h.of_epoll rfl rfl rfl fun fd' interest hi hw hp hr => ?_
  unfold Epoll.becomes at hr ⊢
  by_cases hfd : fd' = fd
  · subst hfd
    simp only [hi, Function.update_self, Flags.union, Flags.inter, Bool.or_eq_true, hw,
      Bool.and_true] at hr ⊢
    exact hr.imp_left hp
  · simp only [Function.update_of_ne hfd] at hr
    cases hfd' : s.epoll.interest fd with
    | none => exact hp hr
    | some _ =>
      simp only [Function.update_of_ne hfd]
      exact hp hr

theorem full (h : Inv s) (fd : Fd) : Inv { s with epoll := s.epoll.full fd } := by
  refine h.of_epoll rfl rfl rfl fun fd' interest _ _ hp hr => ?_
  unfold Epoll.full at hr
  by_cases hfd : fd' = fd
  · subst hfd
    simp only [Function.update_self] at hr
    cases hr
  · simp only [Function.update_of_ne hfd] at hr
    exact hp hr

theorem drained (h : Inv s) (fd : Fd) : Inv { s with epoll := s.epoll.drained fd } := by
  refine h.of_epoll rfl rfl rfl fun fd' interest _ _ hp hr => ?_
  unfold Epoll.drained at hr
  by_cases hfd : fd' = fd
  · subst hfd
    simp only [Function.update_self] at hr
    exact hp hr
  · simp only [Function.update_of_ne hfd] at hr
    exact hp hr

theorem poll (h : Inv s) (fd : Fd) :
    Inv { s with epoll := s.epoll.poll fd, fds := s.fds ++ [.socket fd (s.epoll.pending fd)] } where
  registered := h.registered
  peers := h.peers
  served fd' hne := by
    rcases h.served fd' hne with h | h | ⟨flags, hmem, hw⟩ | ⟨interest, hi, hw, hp⟩
    · exact .inl h
    · exact .inr (.inl h)
    · exact .inr (.inr (.inl ⟨flags, List.mem_append_left _ hmem, hw⟩))
    · by_cases hfd : fd' = fd
      · subst hfd
        by_cases hpending : (s.epoll.pending fd').write = true
        · exact .inr (.inr (.inl ⟨_, List.mem_append_right _ (List.mem_singleton_self _), hpending⟩))
        · exact .inr (.inr (.inr ⟨interest, hi, hw, fun hr => absurd (hp hr) hpending⟩))
      · refine .inr (.inr (.inr ⟨interest, hi, hw, fun hr => ?_⟩))
        simp only [Epoll.poll, Function.update_of_ne hfd]
        exact hp hr

/-- The registration of one file descriptor is modified, and only its deque is concerned. -/
theorem modifyFd (h : Inv s) {system : System} {fd : Fd} {interest : Flags} (fds : List Entry)
    (hpeers : system.transport.peers_ = s.system.transport.peers_)
    (hto : ∀ fd', fd' ≠ fd → system.transport.toWrite fd' = s.system.transport.toWrite fd')
    (hrunning : ∀ fd', fd' ≠ fd → s.system.transport.running ≠ .top fd' ∧
      ∀ n, s.system.transport.running ≠ .inner fd' n)
    (hserved : system.transport.toWrite fd ≠ [] → system.transport.running = .top fd ∨
      interest.write = true)
    (hfds : ∀ fd' flags, fd' ≠ fd → .socket fd' flags ∈ s.fds → .socket fd' flags ∈ fds)
    (hnone : s.epoll.interest fd = none → fds = s.fds ∨ s.system.transport.toWrite fd = []) :
    Inv (({ s with fds } : Polled).modifyFd system fd interest) := by
  unfold Polled.modifyFd Epoll.rearmFd
  cases hi : s.epoll.interest fd with
  | none =>
    refine h.congr rfl rfl rfl rfl fun fd' flags hmem _ hne => ?_
    rcases hnone hi with rfl | hnil
    · exact hmem
    · refine hfds fd' flags ?_ hmem
      rintro rfl
      exact hne hnil
  | some old =>
    refine ⟨fun fd' hne => ?_, fun fd' hne => ?_, fun fd' hne => ?_⟩
    · by_cases hfd : fd' = fd
      · subst hfd
        simp
      · simp only [Function.update_of_ne hfd]
        exact h.registered fd' (hto fd' hfd ▸ hne)
    · by_cases hfd : fd' = fd
      · subst hfd
        simp
      · simp only [Function.update_of_ne hfd]
        exact h.peers fd' (hpeers ▸ hne)
    · by_cases hfd : fd' = fd
      · subst hfd
        rcases hserved hne with hr | hw
        · exact .inl hr
        · refine .inr (.inr (.inr ⟨interest, Function.update_self .., hw, fun hr => ?_⟩))
          simp only [Function.update_self, Flags.inter, hw, Bool.and_true]
          exact hr
      · unfold Served
        simp only [Function.update_of_ne hfd]
        rcases h.served fd' (hto fd' hfd ▸ hne) with hr | ⟨n, hr⟩ | ⟨flags, hmem, hw⟩ | hwait
        · exact absurd hr (hrunning fd' hfd).1
        · exact absurd hr ((hrunning fd' hfd).2 n)
        · exact .inr (.inr (.inl ⟨flags, hfds fd' flags hfd hmem, hw⟩))
        · exact .inr (.inr (.inr hwait))

theorem onReady (h : Inv s) (hno : s.system.transport.running = .no)
    (hapart : ∀ fd flags fds, s.fds = .socket fd flags :: fds → flags.read = true →
      flags.write = true → s.system.transport.toWrite fd = []) : Inv s.onReady := by
  unfold Polled.onReady
  cases hfds : s.fds with
  | nil => exact h
  | cons entry fds =>
    cases entry with
    | writesQueue =>
      refine h.congr rfl rfl rfl rfl fun fd flags hmem _ _ => ?_
      rw [hfds] at hmem
      exact (List.mem_cons.mp hmem).resolve_left Entry.noConfusion
    | socket fd flags =>
      -- what remains to be handled, unless the entry is the one that the deque waits for
      have hrest : ∀ fd' flags', (fd' = fd → flags' ≠ flags) → .socket fd' flags' ∈ s.fds →
          .socket fd' flags' ∈ fds := by
        intro fd' flags' hne hmem
        rw [hfds] at hmem
        refine (List.mem_cons.mp hmem).resolve_left fun he => ?_
        obtain ⟨hfd, hflags⟩ := Entry.socket.inj he
        exact hne hfd hflags
      dsimp only
      by_cases hread : flags.read = true
      · rw [if_pos hread]
        have hpopped : Inv { s with fds } := by
          refine h.congr rfl rfl rfl rfl fun fd' flags' hmem hw hne => hrest fd' flags' ?_ hmem
          rintro rfl rfl
          exact hne (hapart fd' flags' fds hfds hread hw)
        split
        · exact hpopped
        · exact hpopped.drained fd
      · rw [if_neg hread]
        by_cases hwrite : flags.write = true
        · rw [if_pos hwrite]
          have hsystem : s.system.step (.writable fd) =
              { s.system with transport := s.system.transport.asyncWriteImpl fd } := by
            simp only [System.step, if_pos hno]
          rw [hsystem]
          refine h.modifyFd _ rfl (fun _ _ => rfl) (fun fd' _ => ?_) (fun _ => .inl rfl)
            (fun fd' flags' hne => hrest fd' flags' fun he => absurd he hne) fun hi => .inr ?_
          · rw [hno]
            exact ⟨Running.noConfusion, fun _ => Running.noConfusion⟩
          · by_contra hne
            exact h.registered fd hne hi
        · rw [if_neg hwrite]
          refine h.congr rfl rfl rfl rfl fun fd' flags' hmem hw _ => hrest fd' flags' ?_ hmem
          rintro - rfl
          exact hwrite hw

theorem handleWriteQueue (h : Inv s) (hno : s.system.transport.running = .no) :
    Inv s.handleWriteQueue := by
  have hsystem : s.system.step (.handleWriteQueue false) =
      { s.system with transport := s.system.transport.handleWriteQueue false } := by
    simp only [System.step, if_pos hno]
  unfold Polled.handleWriteQueue
  rcases s.system.transport.handleWriteQueue_cases false with ⟨hnil, -⟩ |
    ⟨write, rest, hqueue, ⟨hdrop, he⟩ | ⟨fd, hfd, hp, he⟩⟩
  · rw [hnil]
    exact h.congr rfl rfl rfl rfl fun _ _ hmem _ _ => hmem
  · have hdropped : Inv { s with system := s.system.step (.handleWriteQueue false) } := by
      rw [hsystem, he]
      exact h.congr rfl rfl rfl rfl fun _ _ hmem _ _ => hmem
    rw [hqueue]
    dsimp only
    cases hpeerFd : write.peerFd with
    | none => exact hdropped
    | some fd =>
      dsimp only
      rw [if_pos (hdrop fd hpeerFd)]
      exact hdropped
  · rw [hqueue]
    dsimp only
    rw [hfd]
    dsimp only
    rw [if_neg hp, hsystem, he]
    refine h.modifyFd s.fds rfl (fun fd' hne => Function.update_of_ne hne _ _)
      (fun fd' _ => ?_) (fun _ => .inr rfl) (fun _ _ _ => id) fun _ => .inl rfl
    rw [hno]
    exact ⟨Running.noConfusion, fun _ => Running.noConfusion⟩

theorem loop (h : Inv s) : Inv { s with system := s.system.step .loop } := by
  cases hrunning : s.system.transport.running with
  | no => simpa only [System.step, hrunning] using h
  | inner fd n => simpa only [System.step, hrunning] using h
  | top fd =>
    have hsystem : s.system.step .loop =
        { s.system with transport := s.system.transport.loop fd } := by
      simp only [System.step, hrunning]
    have hloop : (s.system.transport.loop fd).toWrite = s.system.transport.toWrite ∧
        (s.system.transport.loop fd).peers_ = s.system.transport.peers_ ∧
        (s.system.transport.toWrite fd ≠ [] →
          ∃ n, (s.system.transport.loop fd).running = .inner fd n) := by
      unfold Transport.loop
      cases hto : s.system.transport.toWrite fd with
      | nil => exact ⟨rfl, rfl, fun hne => absurd rfl hne⟩
      | cons entry wq => exact ⟨rfl, rfl, fun _ => ⟨_, rfl⟩⟩
    rw [hsystem]
    refine ⟨fun fd' hne => ?_, fun fd' hne => ?_, fun fd' hne => ?_⟩
    · exact h.registered fd' (hloop.1 ▸ hne)
    · exact h.peers fd' (hloop.2.1 ▸ hne)
    · have hne' : s.system.transport.toWrite fd' ≠ [] := hloop.1 ▸ hne
      rcases h.served fd' hne' with hr | ⟨n, hr⟩ | hwait
      · obtain rfl := Running.top.inj (hrunning.symm.trans hr)
        exact .inr (.inl (hloop.2.2 hne'))
      · rw [hrunning] at hr
        cases hr
      · exact .inr (.inr hwait)

/-- What an answer leaves in the deque: nothing, or it goes on being drained, or, having been
told to wait, its socket is waited for. -/
theorem send_served {t : Transport} (fd : Fd) (n : Nat) (answer : Answer)
    (hne : (t.send fd n answer).2.toWrite fd ≠ []) :
    (interestAfter t fd n answer = none ∧ ((t.send fd n answer).2.running = .top fd ∨
        ∃ m, (t.send fd n answer).2.running = .inner fd m)) ∨
      (answer = .again ∧ interestAfter t fd n answer = some ⟨true, true⟩) := by
  unfold Transport.send interestAfter at *
  cases hto : t.toWrite fd with
  | nil =>
    rw [hto] at hne
    exact absurd hto hne
  | cons entry wq =>
    rw [hto] at hne
    have hclean : (t.cleanUp fd wq).toWrite fd ≠ [] → wq ≠ [] ∧
        (t.cleanUp fd wq).running = .top fd := by
      intro hne
      have hwq : wq ≠ [] := by simpa [Transport.cleanUp] using hne
      exact ⟨hwq, if_neg hwq⟩
    cases answer with
    | wrote bytes =>
      dsimp only at hne ⊢
      by_cases hdone : n + min bytes (entry.buffer.size - n) ≥ entry.buffer.size
      · rw [if_pos hdone] at hne ⊢
        obtain ⟨hwq, hr⟩ := hclean hne
        rw [if_neg fun h => hwq h.2]
        exact .inl ⟨rfl, .inl hr⟩
      · rw [if_neg hdone, if_neg fun h => hdone h.1]
        exact .inl ⟨rfl, .inr ⟨_, rfl⟩⟩
    | again => exact .inr ⟨rfl, rfl⟩
    | gone =>
      refine absurd ?_ hne
      simp
    | failed =>
      obtain ⟨hwq, hr⟩ := hclean hne
      dsimp only
      rw [if_neg hwq]
      exact .inl ⟨rfl, .inl hr⟩

/-- Nothing is put into a deque by an answer. -/
theorem send_toWrite {t : Transport} {fd : Fd} {n : Nat} {answer : Answer}
    (hne : (t.send fd n answer).2.toWrite fd ≠ []) : t.toWrite fd ≠ [] := by
  intro hnil
  unfold Transport.send at hne
  rw [hnil] at hne
  exact hne hnil

theorem answer (h : Inv s) {fd : Fd} {n : Nat} (a : Answer)
    (hrunning : s.system.transport.running = .inner fd n) : Inv (s.answer fd n a) := by
  have hsystem : (s.system.step (.answer a)).transport =
      (s.system.transport.send fd n (s.system.answerOf fd a)).2 := by
    simp only [System.step, hrunning]
  have hpeers : (s.system.step (.answer a)).transport.peers_ = s.system.transport.peers_ := by
    rw [hsystem]
    exact (s.system.transport.send_frame fd n _).2
  have hother : ∀ fd', fd' ≠ fd → (s.system.step (.answer a)).transport.toWrite fd' =
      s.system.transport.toWrite fd' := by
    intro fd' hne
    rw [hsystem]
    exact (Transport.send_other (Ne.symm hne) n _).1
  have helse : ∀ fd', fd' ≠ fd → s.system.transport.running ≠ .top fd' ∧
      ∀ n, s.system.transport.running ≠ .inner fd' n := by
    intro fd' hne
    rw [hrunning]
    refine ⟨Running.noConfusion, fun m hm => ?_⟩
    exact hne (Running.inner.inj hm).1.symm
  have hserved := send_served (t := s.system.transport) fd n (s.system.answerOf fd a)
  have hmore := @send_toWrite s.system.transport fd n (s.system.answerOf fd a)
  rw [← hsystem] at hserved hmore
  unfold Polled.answer
  generalize s.system.answerOf fd a = answer at hserved hmore ⊢
  -- the socket that asks to wait is not writable
  obtain ⟨s', hs', h', hsame⟩ : ∃ s' : Polled, s' =
      (if answer = .again then { s with epoll := s.epoll.full fd } else s) ∧ Inv s' ∧
        s'.system = s.system := by
    refine ⟨_, rfl, ?_, ?_⟩
    · split
      · exact h.full fd
      · exact h
    · split <;> rfl
  have hpeers' : (s.system.step (.answer a)).transport.peers_ = s'.system.transport.peers_ := by
    rw [hsame]
    exact hpeers
  have hother' : ∀ fd', fd' ≠ fd → (s.system.step (.answer a)).transport.toWrite fd' =
      s'.system.transport.toWrite fd' := by
    rw [hsame]
    exact hother
  have helse' : ∀ fd', fd' ≠ fd → s'.system.transport.running ≠ .top fd' ∧
      ∀ n, s'.system.transport.running ≠ .inner fd' n := by
    rw [hsame]
    exact helse
  dsimp only
  rw [← hs', hsame]
  cases hi : interestAfter s.system.transport fd n answer with
  | none =>
    have hgoes : (s.system.step (.answer a)).transport.toWrite fd ≠ [] →
        (s.system.step (.answer a)).transport.running = .top fd ∨
          ∃ m, (s.system.step (.answer a)).transport.running = .inner fd m := by
      intro hne
      rcases hserved hne with ⟨-, hr⟩ | ⟨-, hsome⟩
      · exact hr
      · rw [hi] at hsome
        cases hsome
    refine ⟨fun fd' hne => ?_, fun fd' hne => h'.peers fd' (hpeers' ▸ hne), fun fd' hne => ?_⟩
    · by_cases hfd : fd' = fd
      · subst hfd
        refine h'.registered fd' ?_
        rw [hsame]
        exact hmore hne
      · exact h'.registered fd' (hother' fd' hfd ▸ hne)
    · by_cases hfd : fd' = fd
      · subst hfd
        exact (hgoes hne).imp id .inl
      · rcases h'.served fd' (hother' fd' hfd ▸ hne) with hr | ⟨m, hr⟩ | hwait
        · exact absurd hr (helse' fd' hfd).1
        · exact absurd hr ((helse' fd' hfd).2 m)
        · exact .inr (.inr hwait)
  | some interest =>
    refine h'.modifyFd s'.fds hpeers' hother' helse' (fun hne => ?_) (fun _ _ _ => id)
      fun _ => .inl rfl
    rcases hserved hne with ⟨hnone, -⟩ | ⟨-, hsome⟩
    · rw [hi] at hnone
      cases hnone
    · rw [hi] at hsome
      obtain rfl := Option.some.inj hsome
      exact .inr rfl

theorem handlePeer (h : Inv s) {fd : Fd} {epoll : Epoll}
    (hadd : s.epoll.addFd fd ⟨true, false⟩ = some epoll) :
    Inv { s with system := s.system.step (.handlePeer fd), epoll } := by
  unfold Epoll.addFd at hadd
  cases hi : s.epoll.interest fd with
  | some _ =>
    rw [hi] at hadd
    cases hadd
  | none =>
    rw [hi] at hadd
    obtain rfl := Option.some.inj hadd
    have hnil : s.system.transport.toWrite fd = [] := by
      by_contra hne
      exact h.registered fd hne hi
    have hframe : (s.system.step (.handlePeer fd)).transport.toWrite = s.system.transport.toWrite ∧
        (s.system.step (.handlePeer fd)).transport.running = s.system.transport.running ∧
        ∀ fd', fd' ≠ fd → (s.system.step (.handlePeer fd)).transport.peers_ fd' =
          s.system.transport.peers_ fd' := by
      unfold System.step
      dsimp only
      split
      · exact ⟨rfl, rfl, fun _ _ => rfl⟩
      · unfold Transport.handlePeer
        split
        · exact ⟨rfl, rfl, fun fd' hne => Function.update_of_ne hne _ _⟩
        · exact ⟨rfl, rfl, fun _ _ => rfl⟩
    obtain ⟨hto, hrunning, hpeers⟩ := hframe
    refine ⟨fun fd' hne => ?_, fun fd' hne => ?_, fun fd' hne => ?_⟩
    · by_cases hfd : fd' = fd
      · subst hfd
        simp
      · simp only [Function.update_of_ne hfd]
        exact h.registered fd' (hto ▸ hne)
    · by_cases hfd : fd' = fd
      · subst hfd
        simp
      · simp only [Function.update_of_ne hfd]
        exact h.peers fd' (hpeers fd' hfd ▸ hne)
    · have hne' : s.system.transport.toWrite fd' ≠ [] := hto ▸ hne
      have hfd : fd' ≠ fd := by
        rintro rfl
        exact hne' hnil
      unfold Served
      simp only [Function.update_of_ne hfd, hrunning]
      exact h.served fd' hne'

theorem handlePeerDisconnection (h : Inv s) {fd : Fd} {epoll : Epoll}
    (hremove : s.epoll.removeFd fd = some epoll)
    (hno : ∀ fd' n, s.system.transport.running ≠ .inner fd' n) :
    Inv { s with
      system := (s.system.step (.removePeer fd)).step (.closeFd fd)
      epoll := epoll.closed fd } := by
  have hsystem : ((s.system.step (.removePeer fd)).step (.closeFd fd)).transport =
      (s.system.transport.removePeer fd).closeFd fd := by
    simp only [System.step]
    split
    · rename_i fd' n hr
      exact absurd hr (hno fd' n)
    · rfl
  unfold Epoll.removeFd at hremove
  cases hi : s.epoll.interest fd with
  | none =>
    rw [hi] at hremove
    cases hremove
  | some _ =>
    rw [hi] at hremove
    obtain rfl := Option.some.inj hremove
    have hfd : ∀ fd', ((s.system.step (.removePeer fd)).step (.closeFd fd)).transport.toWrite fd' ≠ [] →
        fd' ≠ fd ∧ s.system.transport.toWrite fd' ≠ [] := by
      intro fd' hne
      rw [hsystem] at hne
      by_cases hfd : fd' = fd
      · subst hfd
        simp [Transport.closeFd] at hne
      · simp only [Transport.closeFd, Transport.removePeer, Function.update_of_ne hfd] at hne
        exact ⟨hfd, hne⟩
    refine ⟨fun fd' hne => ?_, fun fd' hne => ?_, fun fd' hne => ?_⟩
    · obtain ⟨hfd, hne'⟩ := hfd fd' hne
      simp only [Epoll.closed, Function.update_of_ne hfd]
      exact h.registered fd' hne'
    · rw [hsystem] at hne
      by_cases hfd : fd' = fd
      · subst hfd
        simp [Transport.closeFd, Transport.removePeer] at hne
      · simp only [Transport.closeFd, Transport.removePeer, Function.update_of_ne hfd] at hne
        simp only [Epoll.closed, Function.update_of_ne hfd]
        exact h.peers fd' hne
    · obtain ⟨hfd, hne'⟩ := hfd fd' hne
      unfold Served
      rw [hsystem]
      simp only [Epoll.closed, Function.update_of_ne hfd]
      exact h.served fd' hne'

end Inv

/-- **One event.** -/
theorem Inv.step {s : Polled} {event : Event} (h : Inv s) (hapart : s.Apart event) :
    Inv (s.step event) := by
  have hthrown : Inv { s with thrown := true } := h.congr rfl rfl rfl rfl fun _ _ hmem _ _ => hmem
  unfold Polled.step
  split
  · exact h
  · cases event with
    | accept fd =>
      have hsystem : (s.system.step (.accept fd)).transport = s.system.transport := by
        unfold System.step
        dsimp only
        split <;> rfl
      exact h.congr (by rw [hsystem]) (by rw [hsystem]) (by rw [hsystem]) rfl
        fun _ _ hmem _ _ => hmem
    | handlePeer fd =>
      dsimp only
      split
      · exact h
      · split
        · exact hthrown
        · exact h.handlePeer ‹_›
    | asyncWrite fd buffer => exact h.congr rfl rfl rfl rfl fun _ _ hmem _ _ => hmem
    | becomes fd flags => exact h.becomes fd flags
    | full fd => exact h.full fd
    | pollQueue =>
      dsimp only
      split
      · exact h.congr rfl rfl rfl rfl fun _ _ hmem _ _ => List.mem_append_left _ hmem
      · exact h
    | poll fd =>
      dsimp only
      split
      · exact h
      · exact h.poll fd
    | onReady =>
      dsimp only
      by_cases hbusy : s.draining = true ∨ s.system.transport.running ≠ .no
      · rw [if_pos hbusy]
        exact h
      · rw [if_neg hbusy]
        obtain ⟨hdraining, hno⟩ := not_or.mp hbusy
        exact h.onReady (not_not.mp hno)
          (hapart (by simpa using hdraining) (not_not.mp hno))
    | handleWriteQueue =>
      dsimp only
      by_cases hready : s.draining = true ∧ s.system.transport.running = .no
      · rw [if_pos hready]
        exact h.handleWriteQueue hready.2
      · rw [if_neg hready]
        exact h
    | loop => exact h.loop
    | answer a =>
      dsimp only
      split
      · exact h.answer a ‹_›
      · exact h
    | handlePeerDisconnection fd =>
      dsimp only
      split
      · exact h
      · rename_i hno
        split
        · exact h
        · split
          · exact hthrown
          · exact h.handlePeerDisconnection ‹_› fun fd' n hr => hno fd' n hr

theorem Inv.init : Inv {} where
  registered _ hne := absurd rfl hne
  peers _ hne := absurd rfl hne
  served _ hne := absurd rfl hne

end Polled

open Polled in
/-- **No stranded response**: in a run in which no event handled reports both flags of a socket
to which something is to be written, nothing is left to be written to a writable socket when no
event is undelivered, be it a connected peer's or not, and be `writesQueue` empty or not. -/
theorem no_stranded_write (events : List Polled.Event)
    (hapart : Machine.Always Polled.step Apart {} events)
    (hidle : (Machine.run Polled.step {} events).Idle) (fd : Fd)
    (hwritable : ((Machine.run Polled.step {} events).epoll.ready fd).write = true) :
    (Machine.run Polled.step {} events).system.transport.toWrite fd = [] := by
  have h := Machine.Always.inv (fun _ _ => Inv.step) events ({} : Polled) Inv.init hapart
  generalize Machine.run Polled.step {} events = s at h hidle hwritable
  by_contra hne
  rcases h.served fd hne with hr | ⟨n, hr⟩ | ⟨flags, hmem, -⟩ | ⟨interest, -, -, hp⟩
  · rw [hidle.running] at hr
    cases hr
  · rw [hidle.running] at hr
    cases hr
  · rw [hidle.fds] at hmem
    cases hmem
  · have hpending := hp hwritable
    rw [hidle.pending fd] at hpending
    cases hpending

/-- A write for a connected peer whose socket is writable, up to the end of `handleWriteQueue`. -/
def enqueuedWrite : List Polled.Event :=
  [.accept 0, .handlePeer 0, .becomes 0 ⟨false, true⟩, .asyncWrite (some 0) (.file [98, 121, 101]),
    .pollQueue, .onReady, .handleWriteQueue, .handleWriteQueue]

/-- The socket is reported writable, and the bytes are sent. -/
def writtenOut : List Polled.Event :=
  enqueuedWrite ++ [.poll 0, .onReady, .loop, .answer (.wrote 3)]

theorem no_stranded_write_writtenOut :
    (Machine.run Polled.step {} writtenOut).system.transport.toWrite 0 = [] := by
  refine no_stranded_write writtenOut ?_ ⟨rfl, rfl, rfl, rfl, fun fd => ?_, rfl⟩ 0 rfl
  · refine ⟨trivial, trivial, trivial, trivial, trivial, ?_, trivial, trivial, trivial, ?_, trivial,
      trivial, trivial⟩
    · rintro - - fd flags fds hfds
      cases hfds
    · rintro - - fd flags fds hfds hread
      obtain ⟨he, -⟩ := List.cons.inj hfds
      obtain ⟨-, rfl⟩ := Entry.socket.inj he
      cases hread
  · by_cases hfd : fd = 0
    · subst hfd
      rfl
    · change Function.update (Function.update (Function.update (Function.update (Function.update
        (Function.update _ 0 _) 0 _) 0 _) 0 _) 0 _) 0 _ fd = _
      simp only [Function.update_of_ne hfd]
      rfl

/-- Input arrives before the event is polled, and one event reports both. -/
def strandedWrite : List Polled.Event :=
  enqueuedWrite ++ [.becomes 0 ⟨true, false⟩, .poll 0, .onReady]

/-- No event is undelivered, and a writable socket has not been given its response. -/
theorem strandedWrite_idle :
    (Machine.run Polled.step {} strandedWrite).Idle ∧
      (Machine.run Polled.step {} strandedWrite).system.transport.writesQueue = [] ∧
      (Machine.run Polled.step {} strandedWrite).system.transport.peers_ 0 ≠ none ∧
      ((Machine.run Polled.step {} strandedWrite).epoll.ready 0).write = true ∧
      (Machine.run Polled.step {} strandedWrite).system.transport.toWrite 0 ≠ [] := by
  refine ⟨⟨rfl, rfl, rfl, rfl, fun fd => ?_, rfl⟩, rfl, ?_, rfl, ?_⟩
  · by_cases hfd : fd = 0
    · subst hfd
      rfl
    · change Function.update (Function.update (Function.update (Function.update
        (Function.update _ 0 _) 0 _) 0 _) 0 _) 0 _ fd = _
      simp only [Function.update_of_ne hfd]
      rfl
  · decide
  · exact List.cons_ne_nil _ _

end Pistache.Tcp
