import Pistache.Tcp.Incoming

/-!
# Delivery

The pollers are edge-triggered: an event is reported once, when a socket becomes readable or a
readable one is registered, and the loop of `handleIncoming` has to read all there is.

* `Woken` — a socket that can be read, or a queue with a peer, is being looked at, or an event for
  it is on its way.
* `sessions_faithful`, `nothing_stranded` — over all runs in which the kernel gives out no number
  from which `handleIncoming` still reads.
-/

set_option autoImplicit false

namespace Pistache.Tcp

namespace Server

/-! ## What the pollers owe -/

structure Woken (s : Server) : Prop where
  queue : ∀ worker, s.peersQueue worker ≠ [] → s.queued worker = true ∨
    .peersQueue ∈ s.fds worker ∨ (s.doing worker).takes = true
  socket : ∀ worker fd peer, s.peers_ worker fd = some peer → s.interest worker fd = true →
    s.readable fd = true → s.pending worker fd = true ∨ .socket fd ∈ s.fds worker ∨
      (s.doing worker).reads = some fd ∨ s.doing worker = .onDisconnection peer ∨
      s.removing worker = .removePeer peer

namespace Woken

variable {handlers : Nat} {s s' : Server}

theorem handleNewConnection (h : Woken s) (hp : Placed handlers s) (fd : Fd) :
    Woken (s.handleNewConnection handlers fd) := by
  unfold Server.handleNewConnection
  split
  case isFalse => exact h
  case isTrue hc =>
    obtain ⟨-, hfree⟩ := hc
    refine ⟨fun worker hne => ?_, fun worker fd' peer hpeer hi hr => ?_⟩
    · have := h.queue worker
      grind
    · refine h.socket worker fd' peer hpeer hi ?_
      obtain ⟨hfd, -⟩ := (hp.peers worker fd' peer).mp hpeer
      have := hp.conn peer fd' hfd
      unfold Server.readable at hr ⊢
      grind

theorem happens (h : Woken s) (hp : Placed handlers s) (fd : Fd) (socket : Socket → Socket) :
    Woken (s.happens fd socket) := by
  unfold Server.happens
  split
  case h_1 => exact h
  case h_2 peer hc =>
    split
    case isTrue => exact h
    case isFalse =>
      refine ⟨h.queue, fun worker fd' peer' hpeer hi hr => ?_⟩
      by_cases hfd : fd' = fd
      · subst hfd
        left
        unfold Server.signal
        grind
      · have hother : s.readable fd' = true := by
          have := hp.conn_inj peer fd fd' hc
          unfold Server.readable at hr ⊢
          grind
        have := h.socket worker fd' peer' hpeer hi hother
        unfold Server.signal
        grind

/-- Neither what can be read nor what is watched is concerned. -/
theorem quiet (h : Woken s) (hconn : s'.conn = s.conn) (hsocket : s'.socket = s.socket)
    (hpeers : s'.peers_ = s.peers_) (hinterest : s'.interest = s.interest)
    (hnonempty : ∀ worker, s'.peersQueue worker ≠ [] → s.peersQueue worker ≠ [])
    (hqueue : ∀ worker, s'.peersQueue worker ≠ [] → s.queued worker = true ∨
      .peersQueue ∈ s.fds worker ∨ (s.doing worker).takes = true →
      s'.queued worker = true ∨ .peersQueue ∈ s'.fds worker ∨ (s'.doing worker).takes = true)
    (hlook : ∀ worker fd peer, s.peers_ worker fd = some peer → s.readable fd = true →
      s.pending worker fd = true ∨ .socket fd ∈ s.fds worker ∨ (s.doing worker).reads = some fd ∨
        s.doing worker = .onDisconnection peer ∨ s.removing worker = .removePeer peer →
      s'.pending worker fd = true ∨ .socket fd ∈ s'.fds worker ∨ (s'.doing worker).reads = some fd ∨
        s'.doing worker = .onDisconnection peer ∨ s'.removing worker = .removePeer peer) :
    Woken s' where
  queue worker hne := hqueue worker hne (h.queue worker (hnonempty worker hne))
  socket worker fd peer hpeer hi hr := by
    have hr' : s.readable fd = true := by
      unfold Server.readable at hr ⊢
      rw [hconn, hsocket] at hr
      exact hr
    rw [hpeers] at hpeer
    rw [hinterest] at hi
    exact hlook worker fd peer hpeer hr' (h.socket worker fd peer hpeer hi hr')

theorem onReady (h : Woken s) (hp : Placed handlers s) {worker : Nat} (hpoll : s.polls worker = true) :
    Woken (s.onReady worker) := by
  obtain ⟨hn, hd⟩ : s.removing worker = .no ∧ s.doing worker = .poll := by
    unfold Server.polls at hpoll
    grind
  unfold Server.onReady
  split
  case h_1 => exact h
  case h_2 fds hfds =>
    refine h.quiet rfl rfl rfl rfl (fun _ hne => hne) (fun worker' _ hq => ?_)
      (fun worker' fd peer _ _ hl => ?_)
    · grind [Doing.takes]
    · grind [Doing.reads]
  case h_3 fd fds hfds =>
    split
    case h_1 hnone =>
      refine h.quiet rfl rfl rfl rfl (fun _ hne => hne) (fun worker' _ hq => ?_)
        (fun worker' fd' peer hpeer _ hl => ?_)
      · grind
      · have := (hp.peers worker fd peer).mp
        grind [Doing.reads]
    case h_2 peer actual hpeer =>
      have hsame : actual = fd := by
        obtain ⟨peer', hp', hmap⟩ := Option.bind_eq_some_iff.mp hpeer
        have := (hp.peers worker fd peer').mp hp'
        grind
      subst hsame
      refine h.quiet rfl rfl rfl rfl (fun _ hne => hne) (fun worker' _ hq => ?_)
        (fun worker' fd' peer hpeer _ hl => ?_)
      · grind [Doing.takes]
      · grind [Doing.reads]

theorem handleIncoming (h : Woken s) (hf : Follows handlers s) (hp : Placed handlers s) {worker : Nat}
    {peer : Peer} {fd : Fd} (hd : s.doing worker = .handleIncoming peer fd) (length : Nat) :
    Woken (s.handleIncoming worker peer fd length) := by
  obtain ⟨hw, hconn⟩ := hf.reading worker peer fd (.inl hd)
  have hdis : Woken (s.handlePeerDisconnection worker peer) := by
    refine h.quiet rfl rfl rfl rfl (fun _ hne => hne) (fun worker' _ hq => ?_)
        (fun worker' fd' peer' hpeer _ hl => ?_)
    · unfold Server.handlePeerDisconnection
      grind [Doing.takes]
    · have := (hp.peers worker fd' peer').mp
      have := hp.conn peer' fd'
      unfold Server.handlePeerDisconnection
      grind [Doing.reads]
  unfold Server.handleIncoming
  split
  case h_1 => exact hdis
  case h_2 owner hc =>
    dsimp only
    split
    case isTrue hunread =>
      split
      case isTrue => exact hdis
      case isFalse hended =>
        refine h.quiet rfl rfl rfl rfl (fun _ hne => hne) (fun worker' _ hq => ?_)
          (fun worker' fd' peer' hpeer hr hl => ?_)
        · grind [Doing.takes]
        · have := (hp.peers worker fd' peer').mp
          unfold Server.readable at hr
          grind [Doing.reads]
    case isFalse hunread =>
      refine ⟨fun worker' hne => ?_, fun worker' fd' peer' hpeer hi hr => ?_⟩
      · have := h.queue worker' hne
        grind [Doing.takes]
      · by_cases hfd : fd' = fd
        · subst hfd
          have := (hp.peers worker' fd' peer').mp hpeer
          have := hp.worker peer' worker' fd'
          grind [Doing.reads]
        · have hother : s.readable fd' = true := by
            have := hp.conn_inj owner fd fd' hc
            unfold Server.readable at hr ⊢
            grind
          have := h.socket worker' fd' peer' hpeer hi hother
          grind [Doing.reads]

theorem advance (h : Woken s) (hp : Placed handlers s) (hr : Registered s) (worker : Nat) :
    Woken (s.advance worker) := by
  unfold Server.advance
  split
  case h_1 peer hrem =>
    obtain ⟨ht, hno⟩ := hr.removing worker peer hrem
    unfold Server.removePeer
    split
    case h_1 hfd =>
      refine h.quiet rfl rfl rfl rfl (fun _ hne => hne) (fun _ _ hq => hq)
        (fun worker' fd' peer' hpeer _ hl => ?_)
      have := (hp.peers worker' fd' peer').mp hpeer
      grind
    case h_2 fd hfd =>
      have hpeer := (hp.peers worker fd peer).mpr ⟨hfd, ht⟩
      rw [if_pos ((hr.interest worker fd).mpr ⟨peer, hpeer, hno fd⟩)]
      refine ⟨h.queue, fun worker' fd' peer' hpeer' hi hread => ?_⟩
      dsimp only at hpeer' hi ⊢
      rw [put_apply] at hpeer' hi ⊢
      have := h.socket worker' fd' peer'
      have := (hp.peers worker' fd' peer').mp
      unfold Server.readable at *
      grind
  case h_2 peer fd hrem =>
    split
    · exact h
    · refine h.quiet rfl rfl rfl rfl (fun _ hne => hne) (fun _ _ hq => hq)
        (fun worker' fd' peer' _ _ hl => ?_)
      grind
  case h_3 peer fd hrem =>
    refine ⟨h.queue, fun worker' fd' peer' hpeer' hi hread => ?_⟩
    have := h.socket worker' fd' peer' hpeer' hi
    unfold Server.readable at *
    grind
  case h_4 hrem =>
    split
    case h_1 => exact h
    case h_2 => exact h
    case h_3 hd =>
      unfold Server.handlePeerQueue
      split
      case h_1 hq =>
        refine h.quiet rfl rfl rfl rfl (fun _ hne => hne) (fun worker' hne hq' => ?_)
          (fun worker' fd' peer' _ _ hl => ?_)
        · grind
        · grind [Doing.reads]
      case h_2 peer peers hq =>
        have hmem : peer ∈ s.peersQueue worker := by
          rw [hq]
          exact List.mem_cons_self
        obtain ⟨ht, fd, hfd, hw⟩ := (hp.queue worker peer).mp hmem
        have hnone := hp.unregistered worker hfd ht
        simp only [Server.handlePeer, hfd, hnone, if_true]
        refine ⟨fun worker' hne => ?_, fun worker' fd' peer' hpeer' hi hread => ?_⟩
        · have := h.queue worker'
          grind [Doing.takes]
        · dsimp only at hpeer' hi ⊢
          rw [put_apply] at hpeer'
          have := h.socket worker' fd' peer'
          have := hr.interest worker' fd'
          unfold Server.readable at *
          grind [Doing.reads]
    case h_4 peer fd hd =>
      obtain ⟨hpeer, hidle⟩ := hr.connecting worker peer fd hd
      have hno : s.interest worker fd = false := by
        have := hr.interest worker fd
        grind
      unfold Server.registerFd
      rw [if_neg (by simp [hno])]
      refine ⟨fun worker' hne => ?_, fun worker' fd' peer' hpeer' hi hread => ?_⟩
      · have := h.queue worker'
        grind [Doing.takes]
      · have hread' : s.readable fd' = true := hread
        dsimp only at hpeer' hi ⊢
        rw [put_apply] at hi ⊢
        have := h.socket worker' fd' peer'
        grind [Doing.reads]
    case h_5 peer fd hd =>
      refine h.quiet rfl rfl rfl rfl (fun _ hne => hne) (fun worker' hne hq' => ?_)
        (fun worker' fd' peer' _ _ hl => ?_)
      · grind [Doing.takes]
      · grind [Doing.reads]
    case h_6 peer hd =>
      refine h.quiet rfl rfl rfl rfl (fun _ hne => hne) (fun worker' hne hq' => ?_)
        (fun worker' fd' peer' _ _ hl => ?_)
      · grind [Doing.takes]
      · grind [Doing.reads]

end Woken

/-! ## All events -/

structure Faithful (handlers : Nat) (s : Server) : Prop where
  inv : Inv handlers s
  follows : Follows handlers s
  woken : Woken s

namespace Faithful

variable {handlers : Nat} {s s' : Server}

theorem init : Faithful handlers {} where
  inv := .init
  follows := {
    sessions := fun peer => ⟨{}, rfl, by
      constructor <;> simp⟩
    reading := fun _ _ _ hd => by rcases hd with hd | hd <;> cases hd }
  woken := {
    queue := fun _ hne => absurd rfl hne
    socket := fun _ _ _ hp => by cases hp }

/-- Only the deques and their locks are concerned. -/
theorem deques (h : Faithful handlers s) (listener : Listening)
    (toWrite : Nat → Fd → Option (List WriteEntry)) (toWriteLock : Nat → Bool)
    (hi : Inv handlers { s with listener, toWrite, toWriteLock }) :
    Faithful handlers { s with listener, toWrite, toWriteLock } := by
  refine ⟨hi, ⟨fun peer => ?_, h.follows.reading⟩, ⟨h.woken.queue, h.woken.socket⟩⟩
  obtain ⟨session, hof, hfits⟩ := h.follows.sessions peer
  exact ⟨session, hof, hfits.input, hfits.connected, hfits.order, hfits.ended, hfits.gone,
    hfits.going, hfits.serving, hfits.leaving, hfits.removing⟩

theorem handleNewPeer (h : Faithful handlers s) : Faithful handlers s.handleNewPeer := by
  have hi : Inv handlers s.handleNewPeer :=
    ⟨h.inv.placed.handleNewPeer, h.inv.registered.handleNewPeer,
      h.inv.guarded.handleNewPeer h.inv.placed⟩
  unfold Server.handleNewPeer at hi ⊢
  split at hi
  · exact h
  · split at hi
    case isTrue hl =>
      rw [if_pos hl]
      exact h
    case isFalse hl =>
      rw [if_neg hl]
      exact h.deques _ _ _ hi
  · split at hi
    · exact h.deques _ _ _ hi
    · exact h.deques _ _ _ hi
  · exact h.deques _ _ _ hi

theorem handleWriteQueue (h : Faithful handlers s) (worker : Nat) (write : WriteEntry) :
    Faithful handlers (s.handleWriteQueue worker write) := by
  have hi := h.inv.handleWriteQueue worker write
  unfold Server.handleWriteQueue at hi ⊢
  split at hi
  · exact h
  · split at hi
    case isTrue hnone =>
      rw [if_pos hnone]
      exact h
    case isFalse hsome =>
      rw [if_neg hsome]
      exact h.deques _ _ _ hi

theorem asyncWriteImpl (h : Faithful handlers s) (worker : Nat) (fd : Fd) (sent : Option Nat) :
    Faithful handlers (s.asyncWriteImpl worker fd sent) := by
  have hi := h.inv.asyncWriteImpl worker fd sent
  unfold Server.asyncWriteImpl at hi ⊢
  split at hi
  · exact h
  · exact h
  · split at hi
    · exact h.deques _ _ _ hi
    · exact h.deques _ _ _ hi
    · exact h.deques _ _ _ hi

theorem step (h : Faithful handlers s) {event : Event} (hapart : event.Apart handlers s) :
    Faithful handlers (s.step handlers event) := by
  have hi := h.inv.step event
  obtain ⟨⟨hp, hr, hg⟩, hf, hw⟩ := h
  unfold Server.step at hi ⊢
  rw [if_neg (by rw [hr.thrown]; exact Bool.false_ne_true)] at hi ⊢
  cases event with
  | handleNewConnection fd =>
    exact ⟨hi, hf.handleNewConnection hp hr hapart, hw.handleNewConnection hp fd⟩
  | handleNewPeer => exact handleNewPeer ⟨⟨hp, hr, hg⟩, hf, hw⟩
  | arrive fd bytes => exact ⟨hi, hf.happens fd fun _ => rfl, hw.happens hp fd _⟩
  | finish fd => exact ⟨hi, hf.happens fd fun _ => rfl, hw.happens hp fd _⟩
  | reset fd => exact ⟨hi, hf.happens fd fun _ => rfl, hw.happens hp fd _⟩
  | pollQueue worker =>
    dsimp only at hi ⊢
    split at hi
    case isTrue hq =>
      rw [if_pos hq]
      refine ⟨hi, hf.kept ⟨rfl, rfl, rfl, rfl, rfl, rfl, rfl, rfl, rfl, rfl⟩ rfl (fun _ hi => hi) rfl
        rfl, hw.quiet rfl rfl rfl rfl (fun _ hne => hne) (fun worker' _ hl => ?_)
          fun worker' fd' peer' _ _ hl => ?_⟩ <;> grind
    case isFalse hno =>
      rw [if_neg hno]
      exact ⟨hi, hf, hw⟩
  | poll worker fd =>
    dsimp only at hi ⊢
    split at hi
    case isTrue hq =>
      rw [if_pos hq]
      refine ⟨hi, hf.kept ⟨rfl, rfl, rfl, rfl, rfl, rfl, rfl, rfl, rfl, rfl⟩ rfl (fun _ hi => hi) rfl
        rfl, hw.quiet rfl rfl rfl rfl (fun _ hne => hne) (fun worker' _ hl => ?_)
          fun worker' fd' peer' _ _ hl => ?_⟩
      · grind
      · dsimp only
        rw [put_apply]
        grind
    case isFalse hno =>
      rw [if_neg hno]
      exact ⟨hi, hf, hw⟩
  | onReady worker =>
    dsimp only at hi ⊢
    split at hi
    case isTrue hpoll =>
      rw [if_pos hpoll]
      exact ⟨hi, hf.onReady hp hpoll, hw.onReady hp hpoll⟩
    case isFalse hno =>
      rw [if_neg hno]
      exact ⟨hi, hf, hw⟩
  | recv worker length =>
    dsimp only at hi ⊢
    split
    case h_1 peer fd hrem hd =>
      rw [hrem, hd] at hi
      exact ⟨hi, hf.handleIncoming hp hr hd length, hw.handleIncoming hf hp hd length⟩
    case h_2 => exact ⟨⟨hp, hr, hg⟩, hf, hw⟩
  | advance worker => exact ⟨hi, hf.advance hp hr worker, hw.advance hp hr worker⟩
  | checkIdlePeers worker fd =>
    dsimp only at hi ⊢
    split at hi
    case isTrue hpoll =>
      rw [if_pos hpoll]
      split at hi
      · exact ⟨hi, hf, hw⟩
      · refine ⟨hi, hf.kept ⟨rfl, rfl, rfl, rfl, rfl, rfl, rfl, rfl, rfl, rfl⟩ rfl
          (fun peer' hidle => ?_) rfl rfl, ⟨hw.queue, hw.socket⟩⟩
        grind
    case isFalse hno =>
      rw [if_neg hno]
      exact ⟨hi, hf, hw⟩
  | removePeer peer =>
    dsimp only at hi ⊢
    split at hi
    · exact ⟨hi, hf, hw⟩
    case h_2 worker ht =>
      split at hi
      case isTrue hout =>
        rw [if_pos hout]
        rw [Bool.and_eq_true] at hout
        refine ⟨hi, hf.startRemoving hout.1 hout.2, hw.quiet rfl rfl rfl rfl (fun _ hne => hne)
          (fun _ _ hl => hl) fun worker' fd' peer' _ _ hl => ?_⟩
        have hno := hout.1
        unfold Server.outside at hno
        grind
      case isFalse hno =>
        rw [if_neg hno]
        exact ⟨hi, hf, hw⟩
  | handleWriteQueue worker write =>
    dsimp only at hi ⊢
    split
    · exact handleWriteQueue ⟨⟨hp, hr, hg⟩, hf, hw⟩ worker write
    · exact ⟨⟨hp, hr, hg⟩, hf, hw⟩
  | asyncWriteImpl worker fd sent =>
    dsimp only at hi ⊢
    split
    · exact asyncWriteImpl ⟨⟨hp, hr, hg⟩, hf, hw⟩ worker fd sent
    · exact ⟨⟨hp, hr, hg⟩, hf, hw⟩

theorem run (events : List Event)
    (hapart : Machine.Always (Server.step handlers) (Event.Apart handlers) {} events) :
    Faithful handlers (Server.run handlers {} events) :=
  Machine.Always.inv (fun s _ (h : Faithful handlers s) he => h.step he) events _ init hapart

end Faithful

/-- The thread of a worker waits in its poller, which has nothing to report of the queue and of a
file descriptor. -/
structure Resting (s : Server) (worker : Nat) (fd : Fd) : Prop where
  doing : s.doing worker = .poll
  removing : s.removing worker = .no
  fds : s.fds worker = []
  queued : s.queued worker = false
  pending : s.pending worker fd = false

/-- In a state in which the worker of an open connection rests. -/
theorem Faithful.resting {handlers : Nat} {s : Server} (h : Faithful handlers s) {fd : Fd}
    {peer : Peer} (hconn : s.conn fd = some peer) (hrest : Resting s (fd % handlers) fd) :
    ∃ session, Session.of s.calls peer = some session ∧
      session.connected = true ∧ session.disconnected = false ∧
      session.inputs.flatten = (s.socket peer).taken ∧
      (s.socket peer).unread = [] ∧ (s.socket peer).ended = false := by
  obtain ⟨session, hof, hfits⟩ := h.follows.sessions peer
  have hplace := h.inv.owned.place fd peer hconn
  have hnil : s.peersQueue (fd % handlers) = [] := by
    by_contra hne
    have := h.woken.queue _ hne
    rw [hrest.queued, hrest.fds, hrest.doing] at this
    simp [Doing.takes] at this
  have hpeer : s.peers_ (fd % handlers) fd = some peer := by
    rcases hplace.1 with hq | hp | hc
    · rw [hnil] at hq
      cases hq
    · exact hp
    · unfold Closing at hc
      rw [hrest.removing] at hc
      rcases hc with hc | hc <;> cases hc
  obtain ⟨hfd, ht⟩ := (h.inv.placed.peers _ fd peer).mp hpeer
  have hread : s.readable fd = false := by
    by_contra hr
    have hi := (h.inv.registered.interest (fd % handlers) fd).mpr
      ⟨peer, hpeer, by rw [hrest.doing]; exact Doing.noConfusion⟩
    have := h.woken.socket _ fd peer hpeer hi (by simpa using hr)
    rw [hrest.pending, hrest.fds, hrest.doing, hrest.removing] at this
    simp [Doing.reads] at this
  unfold Server.readable at hread
  rw [hconn] at hread
  simp only [Bool.or_eq_false_iff, decide_eq_false_iff_not, not_not] at hread
  refine ⟨session, hof, hfits.connected.mpr (by rw [ht]; exact Option.some_ne_none _), ?_,
    hfits.input, hread.1, hread.2⟩
  have hgoing := hfits.going (fd % handlers)
  rw [hrest.doing, hrest.removing, hfd] at hgoing
  by_contra hd
  have := hgoing (by simpa using hd) ht
  simp at this

section Runs

variable (handlers : Nat) (events : List Event)

/-- What the handler is told of each connection is a session, of the input that has been read from
its own socket; `onDisconnection` is called behind all of the input, unless the peer was found idle,
and no connection is closed but for one of these two. -/
theorem sessions_faithful
    (hapart : Machine.Always (step handlers) (Event.Apart handlers) {} events) (peer : Peer) :
    ∃ session, Session.of (run handlers {} events).calls peer = some session ∧
      session.inputs.flatten = ((run handlers {} events).socket peer).taken ∧
      (session.disconnected = true → (run handlers {} events).idle peer = true ∨
        ((run handlers {} events).socket peer).unread = [] ∧
          ((run handlers {} events).socket peer).ended = true) ∧
      (peer < (run handlers {} events).next → (∀ fd, (run handlers {} events).conn fd ≠ some peer) →
        session.disconnected = true ∨ (run handlers {} events).idle peer = true) := by
  have h := Faithful.run events hapart
  obtain ⟨session, hof, hfits⟩ := h.follows.sessions peer
  refine ⟨session, hof, hfits.input, hfits.ended, fun hlt hno => hfits.gone hlt ?_⟩
  cases hfd : (run handlers {} events).fd_ peer with
  | none => rfl
  | some fd => exact absurd (h.inv.placed.conn peer fd hfd) (hno fd)

end Runs

/-! ### A number that is given out again -/

/-- The client of the first connection sends a request and ends; when the connection has been
closed, its number is given to the second one. -/
def numberReused : List Event :=
  [.handleNewConnection 7, .handleNewPeer, .arrive 7 (lit "one"), .finish 7, .pollQueue 1, .onReady 1,
    .advance 1, .handleNewPeer, .advance 1, .advance 1, .poll 1 7, .handleNewPeer, .onReady 1,
    .recv 1 4096, .advance 1, .recv 1 4096, .advance 1, .advance 1, .advance 1, .advance 1,
    .handleNewConnection 7, .pollQueue 1, .onReady 1, .advance 1, .advance 1, .advance 1,
    .arrive 7 (lit "two"), .poll 1 7, .onReady 1, .recv 1 2, .advance 1, .recv 1 2, .advance 1,
    .recv 1 2]

theorem sessions_faithful_numberReused :
    ∃ session, Session.of (run 2 {} numberReused).calls 0 = some session ∧
      session.inputs.flatten = ((run 2 {} numberReused).socket 0).taken ∧
      (session.disconnected = true → (run 2 {} numberReused).idle 0 = true ∨
        ((run 2 {} numberReused).socket 0).unread = [] ∧
          ((run 2 {} numberReused).socket 0).ended = true) ∧
      (0 < (run 2 {} numberReused).next → (∀ fd, (run 2 {} numberReused).conn fd ≠ some 0) →
        session.disconnected = true ∨ (run 2 {} numberReused).idle 0 = true) :=
  sessions_faithful 2 numberReused (by decide) 0

example : Session.of (run 2 {} numberReused).calls 0 = some ⟨true, [lit "one"], true⟩ := by decide

example : Session.of (run 2 {} numberReused).calls 1 =
    some ⟨true, [lit "tw", lit "o"], false⟩ := by decide

/-- A peer is removed during its call of `onInput`, and its number is given out before the loop of
`handleIncoming` goes on: the loop reads from the second connection for the first peer. -/
theorem sessions_crossed :
    let s := run 2 {} [.handleNewConnection 7, .handleNewPeer, .handleNewPeer, .handleNewPeer,
      .pollQueue 1, .onReady 1, .advance 1, .advance 1, .advance 1, .checkIdlePeers 1 7,
      .arrive 7 (lit "one"), .poll 1 7, .onReady 1, .recv 1 4096, .removePeer 0, .advance 1,
      .advance 1, .advance 1, .handleNewConnection 7, .arrive 7 (lit "two"), .advance 1,
      .recv 1 4096]
    Session.of s.calls 0 = some ⟨true, [lit "one", lit "two"], false⟩ ∧
      (s.socket 0).taken = lit "one" := by decide

end Server

end Pistache.Tcp
