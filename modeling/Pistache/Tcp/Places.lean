import Pistache.Tcp.Accepting

/-!
# The place of each connection

Where the threads of the listener and of the workers can be when a connection is somewhere.

* `Placed` — a connection is in the queue of its transport, among its peers, or being closed.
* `Registered` — the poller of a transport watches the file descriptors of its peers.
* `Guarded` — the deques of a transport are those of open connections, whichever of the two
  threads gets its lock first.
* `connections_owned` — all of it, in all states of all runs.
-/

set_option autoImplicit false

namespace Pistache.Tcp

namespace Server

/-- What the threads share stays as it is, and so does what each of them is closing. -/
structure Kept (s s' : Server) : Prop where
  conn : s'.conn = s.conn
  next : s'.next = s.next
  listener : s'.listener = s.listener
  fd_ : s'.fd_ = s.fd_
  transport_ : s'.transport_ = s.transport_
  peersQueue : s'.peersQueue = s.peersQueue
  peers_ : s'.peers_ = s.peers_
  toWrite : s'.toWrite = s.toWrite
  toWriteLock : s'.toWriteLock = s.toWriteLock
  removing : s'.removing = s.removing

namespace Kept

variable (s : Server)

theorem refl : Kept s s := ⟨rfl, rfl, rfl, rfl, rfl, rfl, rfl, rfl, rfl, rfl⟩

theorem happens (fd : Fd) (socket : Socket → Socket) : Kept s (s.happens fd socket) := by
  unfold Server.happens
  split
  · exact .refl s
  · split
    · exact .refl s
    · exact ⟨rfl, rfl, rfl, rfl, rfl, rfl, rfl, rfl, rfl, rfl⟩

theorem registerFd (worker : Nat) (fd : Fd) : Kept s (s.registerFd worker fd) := by
  unfold Server.registerFd
  split
  · exact ⟨rfl, rfl, rfl, rfl, rfl, rfl, rfl, rfl, rfl, rfl⟩
  · exact ⟨rfl, rfl, rfl, rfl, rfl, rfl, rfl, rfl, rfl, rfl⟩

theorem handleIncoming (worker : Nat) (peer : Peer) (fd : Fd) (length : Nat) :
    Kept s (s.handleIncoming worker peer fd length) := by
  unfold Server.handleIncoming
  split
  · exact ⟨rfl, rfl, rfl, rfl, rfl, rfl, rfl, rfl, rfl, rfl⟩
  · dsimp only
    split
    · split
      · exact ⟨rfl, rfl, rfl, rfl, rfl, rfl, rfl, rfl, rfl, rfl⟩
      · exact ⟨rfl, rfl, rfl, rfl, rfl, rfl, rfl, rfl, rfl, rfl⟩
    · exact ⟨rfl, rfl, rfl, rfl, rfl, rfl, rfl, rfl, rfl, rfl⟩

theorem onReady (worker : Nat) : Kept s (s.onReady worker) := by
  unfold Server.onReady
  split
  · exact .refl s
  · exact ⟨rfl, rfl, rfl, rfl, rfl, rfl, rfl, rfl, rfl, rfl⟩
  · split
    · exact ⟨rfl, rfl, rfl, rfl, rfl, rfl, rfl, rfl, rfl, rfl⟩
    · exact ⟨rfl, rfl, rfl, rfl, rfl, rfl, rfl, rfl, rfl, rfl⟩

end Kept

/-! ## The places of a connection -/

/-- The thread of a worker is closing the file descriptor of a peer. -/
def Closing (s : Server) (worker : Nat) (peer : Peer) (fd : Fd) : Prop :=
  s.removing worker = .closeFd peer fd ∨ s.removing worker = .locked peer fd

structure Placed (handlers : Nat) (s : Server) : Prop where
  fresh : ∀ peer, s.next ≤ peer → s.fd_ peer = none ∧ s.transport_ peer = none
  conn : ∀ peer fd, s.fd_ peer = some fd → s.conn fd = some peer
  place : ∀ fd peer, s.conn fd = some peer →
    s.fd_ peer = some fd ∨ s.Closing (fd % handlers) peer fd
  queue : ∀ worker peer, peer ∈ s.peersQueue worker ↔
    s.transport_ peer = none ∧ ∃ fd, s.fd_ peer = some fd ∧ fd % handlers = worker
  nodup : ∀ worker, (s.peersQueue worker).Nodup
  peers : ∀ worker fd peer, s.peers_ worker fd = some peer ↔
    s.fd_ peer = some fd ∧ s.transport_ peer = some worker
  worker : ∀ peer worker fd, s.transport_ peer = some worker → s.fd_ peer = some fd →
    fd % handlers = worker
  closing : ∀ worker peer fd, s.Closing worker peer fd → s.conn fd = some peer ∧
    s.fd_ peer = none ∧ s.transport_ peer = some worker ∧ fd % handlers = worker

namespace Placed

variable {handlers : Nat} {s s' : Server}

/-- Nothing is concerned but what the threads do, and none of them closes what it did not. -/
theorem congr (h : Placed handlers s) (hconn : s'.conn = s.conn) (hnext : s'.next = s.next)
    (hfd : s'.fd_ = s.fd_) (htransport : s'.transport_ = s.transport_)
    (hqueue : s'.peersQueue = s.peersQueue) (hpeers : s'.peers_ = s.peers_)
    (hclosing : ∀ worker peer fd, s'.Closing worker peer fd ↔ s.Closing worker peer fd) :
    Placed handlers s' where
  fresh := by rw [hnext, hfd, htransport]; exact h.fresh
  conn := by rw [hconn, hfd]; exact h.conn
  place fd peer hc := by
    rw [hfd, hclosing]
    exact h.place fd peer (hconn ▸ hc)
  queue := by rw [hqueue, htransport, hfd]; exact h.queue
  nodup := by rw [hqueue]; exact h.nodup
  peers := by rw [hpeers, htransport, hfd]; exact h.peers
  worker := by rw [htransport, hfd]; exact h.worker
  closing worker peer fd hc := by
    rw [hconn, hfd, htransport]
    exact h.closing worker peer fd ((hclosing worker peer fd).mp hc)

theorem kept (h : Placed handlers s) (k : Kept s s') : Placed handlers s' :=
  h.congr k.conn k.next k.fd_ k.transport_ k.peersQueue k.peers_ fun worker peer fd => by
    rw [Closing, Closing, k.removing]

theorem lt_next (h : Placed handlers s) (peer : Peer) (fd : Fd) (hc : s.conn fd = some peer) :
    peer < s.next := by
  by_contra hlt
  obtain ⟨hfd, ht⟩ := h.fresh peer (Nat.le_of_not_lt hlt)
  rcases h.place fd peer hc with h' | h'
  · rw [hfd] at h'
    cases h'
  · have := (h.closing _ peer fd h').2.2.1
    rw [ht] at this
    cases this

/-- A connection has one file descriptor. -/
theorem conn_inj (h : Placed handlers s) (peer : Peer) (fd fd' : Fd) (hc : s.conn fd = some peer)
    (hc' : s.conn fd' = some peer) : fd = fd' := by
  rcases h.place fd peer hc with hf | hf <;> rcases h.place fd' peer hc' with hf' | hf'
  · exact Option.some.inj (hf.symm.trans hf')
  · rw [(h.closing _ peer fd' hf').2.1] at hf
    cases hf
  · rw [(h.closing _ peer fd hf).2.1] at hf'
    cases hf'
  · have ht := (h.closing _ peer fd hf).2.2.1
    have ht' := (h.closing _ peer fd' hf').2.2.1
    have hw : fd % handlers = fd' % handlers := Option.some.inj (ht.symm.trans ht')
    unfold Closing at hf hf'
    rw [hw] at hf
    grind

theorem handleNewConnection (h : Placed handlers s) (fd : Fd) :
    Placed handlers (s.handleNewConnection handlers fd) := by
  unfold Server.handleNewConnection
  split
  case isFalse => exact h
  case isTrue hc =>
    obtain ⟨-, hfree⟩ := hc
    obtain ⟨hnone, htnone⟩ := h.fresh s.next (Nat.le_refl _)
    have hne : ∀ fd' peer, s.conn fd' = some peer → fd' ≠ fd := by grind
    refine ⟨fun peer hp => ?_, fun peer fd' hp => ?_, fun fd' peer hp => ?_, fun worker peer => ?_,
      fun worker => ?_, fun worker fd' peer => ?_, fun peer worker fd' ht hp => ?_,
      fun worker peer fd' hp => ?_⟩
    · have := h.fresh peer (by grind)
      grind
    · have := h.conn peer fd'
      grind
    · have := h.place fd' peer
      have := h.lt_next peer fd'
      unfold Closing at *
      grind
    · have := h.queue worker peer
      simp only [Function.update_apply]
      by_cases hp : peer = s.next
      · subst hp
        by_cases hw : worker = fd % handlers
        · simp [hw, htnone]
        · grind
      · by_cases hw : worker = fd % handlers
        · subst hw
          simp only [if_true, List.mem_append, List.mem_singleton, hp, or_false]
          exact this
        · simp only [if_neg hw, if_neg hp]
          exact this
    · have := h.nodup worker
      have := h.queue worker s.next
      grind
    · have := h.peers worker fd' peer
      grind
    · have := h.worker peer worker fd'
      grind
    · have := h.closing worker peer fd'
      unfold Closing at *
      grind

theorem unregistered (h : Placed handlers s) (worker : Nat) {peer : Peer} {fd : Fd}
    (hfd : s.fd_ peer = some fd) (ht : s.transport_ peer = none) : s.peers_ worker fd = none := by
  cases hp : s.peers_ worker fd with
  | none => rfl
  | some other =>
    obtain ⟨hother, hto⟩ := (h.peers worker fd other).mp hp
    have hsame := (h.conn other fd hother).symm.trans (h.conn peer fd hfd)
    cases hsame
    rw [ht] at hto
    cases hto

theorem handlePeerQueue (h : Placed handlers s) (worker : Nat) :
    Placed handlers (s.handlePeerQueue worker) := by
  unfold Server.handlePeerQueue
  split
  case h_1 => exact h.congr rfl rfl rfl rfl rfl rfl fun _ _ _ => Iff.rfl
  case h_2 peer peers hq =>
    have hmem : peer ∈ s.peersQueue worker := by
      rw [hq]
      exact List.mem_cons_self
    obtain ⟨ht, fd, hfd, hw⟩ := (h.queue worker peer).mp hmem
    have hnone := h.unregistered worker hfd ht
    have hnodup := h.nodup worker
    rw [hq, List.nodup_cons] at hnodup
    simp only [Server.handlePeer, hfd, hnone, if_true]
    refine ⟨fun peer' hp => ?_, h.conn, fun fd' peer hp => h.place fd' peer hp,
      fun worker' peer' => ?_,
      fun worker => ?_, fun worker fd' peer => ?_, fun peer worker fd' ht hp => ?_,
      fun worker peer fd' hp => ?_⟩
    · have := h.fresh peer' hp
      grind
    · have := h.queue worker' peer'
      grind
    · have := h.nodup worker
      grind
    · have := h.peers worker fd' peer
      have := h.conn
      simp only [put_apply]
      grind
    · have := h.worker peer worker fd'
      grind
    · have := h.closing worker peer fd' hp
      grind

theorem removePeer (h : Placed handlers s) {worker : Nat} {peer : Peer}
    (hr : s.removing worker = .removePeer peer) (ht : s.transport_ peer = some worker) :
    Placed handlers (s.removePeer worker peer) := by
  have hcl : ∀ peer fd, ¬ s.Closing worker peer fd := by
    unfold Closing
    grind
  unfold Server.removePeer
  split
  case h_1 => 
    refine h.congr rfl rfl rfl rfl rfl rfl fun worker' peer' fd' => ?_
    have := hcl peer' fd'
    unfold Closing at *
    grind
  case h_2 fd hfd => 
    split
    case isFalse => exact h.congr rfl rfl rfl rfl rfl rfl fun _ _ _ => Iff.rfl
    case isTrue =>
      have hw := h.worker peer worker fd ht hfd
      have hc := h.conn peer fd hfd
      refine ⟨fun peer' hp => ?_, fun peer' fd' hp => ?_, fun fd' peer' hp => ?_, fun worker' peer' => ?_,
        h.nodup, fun worker' fd' peer' => ?_, fun peer' worker' fd' ht hp => ?_,
        fun worker' peer' fd' hp => ?_⟩
      · have := h.fresh peer' hp
        grind
      · have := h.conn peer' fd'
        grind
      · have := h.place fd' peer' hp
        have := hcl peer' fd'
        unfold Closing at *
        grind
      · have := h.queue worker' peer'
        grind
      · have := h.peers worker' fd' peer'
        have := h.conn peer' fd'
        simp only [put_apply]
        grind
      · have := h.worker peer' worker' fd' ht
        grind
      · have := h.closing worker' peer' fd'
        unfold Closing at *
        grind

theorem advance (h : Placed handlers s) (worker : Nat)
    (hr : ∀ peer, s.removing worker = .removePeer peer → s.transport_ peer = some worker) :
    Placed handlers (s.advance worker) := by
  unfold Server.advance
  split
  case h_1 peer hrem => exact h.removePeer hrem (hr peer hrem)
  case h_2 peer fd hrem =>
    split
    · exact h
    · refine h.congr rfl rfl rfl rfl rfl rfl fun worker' peer' fd' => ?_
      unfold Closing
      grind
  case h_3 peer fd hrem =>
    have hcl : ∀ peer' fd', s.Closing worker peer' fd' ↔ peer' = peer ∧ fd' = fd := by
      unfold Closing
      grind
    obtain ⟨hc, hfd, ht, hw⟩ := h.closing worker peer fd ((hcl peer fd).mpr ⟨rfl, rfl⟩)
    refine ⟨h.fresh, fun peer' fd' hp => ?_, fun fd' peer' hp => ?_, h.queue, h.nodup, h.peers,
      h.worker, fun worker' peer' fd' hp => ?_⟩
    · have := h.conn peer' fd' hp
      grind
    · have := h.place fd' peer'
      have := hcl peer' fd'
      have := h.conn_inj peer fd fd'
      unfold Closing at *
      grind
    · have := h.closing worker' peer' fd'
      unfold Closing at *
      grind
  case h_4 hrem =>
    split
    · exact h
    · exact h
    · exact h.handlePeerQueue worker
    · exact h.kept (.registerFd s worker _)
    · exact h.congr rfl rfl rfl rfl rfl rfl fun _ _ _ => Iff.rfl
    · refine h.congr rfl rfl rfl rfl rfl rfl fun worker' peer' fd' => ?_
      unfold Closing
      grind

theorem handleNewPeer (h : Placed handlers s) : Placed handlers s.handleNewPeer := by
  unfold Server.handleNewPeer
  split
  · exact h
  · split
    · exact h
    · exact h.congr rfl rfl rfl rfl rfl rfl fun _ _ _ => Iff.rfl
  · split
    · exact h.congr rfl rfl rfl rfl rfl rfl fun _ _ _ => Iff.rfl
    · exact h.congr rfl rfl rfl rfl rfl rfl fun _ _ _ => Iff.rfl
  · exact h.congr rfl rfl rfl rfl rfl rfl fun _ _ _ => Iff.rfl

theorem startRemoving (h : Placed handlers s) {worker : Nat} {peer : Peer}
    (hout : s.outside worker = true) :
    Placed handlers { s with
      removing := Function.update s.removing worker (.removePeer peer) } := by
  refine h.congr rfl rfl rfl rfl rfl rfl fun worker' peer' fd' => ?_
  unfold Server.outside at hout
  unfold Closing
  grind

end Placed

/-! ## The poller -/

structure Registered (s : Server) : Prop where
  thrown : s.thrown = false
  interest : ∀ worker fd, s.interest worker fd = true ↔
    ∃ peer, s.peers_ worker fd = some peer ∧ s.doing worker ≠ .onConnection peer fd
  connecting : ∀ worker peer fd, s.doing worker = .onConnection peer fd →
    s.peers_ worker fd = some peer ∧ s.idle peer = false
  idle : ∀ peer, s.idle peer = true → s.transport_ peer ≠ none
  serving : ∀ worker peer fd, s.doing worker = .handleIncoming peer fd ∨
    s.doing worker = .onInput peer fd ∨ s.doing worker = .onDisconnection peer →
      s.transport_ peer = some worker
  removing : ∀ worker peer, s.removing worker = .removePeer peer →
    s.transport_ peer = some worker ∧ ∀ fd, s.doing worker ≠ .onConnection peer fd

namespace Registered

variable {handlers : Nat} {s s' : Server}

theorem handleNewConnection (h : Registered s) (fd : Fd) :
    Registered (s.handleNewConnection handlers fd) := by
  unfold Server.handleNewConnection
  split
  · exact ⟨h.thrown, h.interest, h.connecting, h.idle, h.serving, h.removing⟩
  · exact h

theorem handleNewPeer (h : Registered s) : Registered s.handleNewPeer := by
  unfold Server.handleNewPeer
  split
  · exact h
  · split
    · exact h
    · exact ⟨h.thrown, h.interest, h.connecting, h.idle, h.serving, h.removing⟩
  · split
    · exact ⟨h.thrown, h.interest, h.connecting, h.idle, h.serving, h.removing⟩
    · exact ⟨h.thrown, h.interest, h.connecting, h.idle, h.serving, h.removing⟩
  · exact ⟨h.thrown, h.interest, h.connecting, h.idle, h.serving, h.removing⟩

theorem happens (h : Registered s) (fd : Fd) (socket : Socket → Socket) :
    Registered (s.happens fd socket) := by
  unfold Server.happens
  split
  · exact h
  · split
    · exact h
    · exact ⟨h.thrown, h.interest, h.connecting, h.idle, h.serving, h.removing⟩

/-- The thread of a worker goes from one call that is not `onConnection` to another one. -/
theorem move (h : Registered s) (worker : Nat) (doing : Doing)
    (hfrom : ∀ peer fd, s.doing worker ≠ .onConnection peer fd)
    (hto : ∀ peer fd, doing ≠ .onConnection peer fd)
    (hserving : ∀ peer fd, doing = .handleIncoming peer fd ∨ doing = .onInput peer fd ∨
      doing = .onDisconnection peer → s.transport_ peer = some worker)
    (hthrown : s'.thrown = s.thrown) (hinterest : s'.interest = s.interest)
    (hpeers : s'.peers_ = s.peers_) (hidle : s'.idle = s.idle) (ht : s'.transport_ = s.transport_)
    (hremoving : s'.removing = s.removing)
    (hdoing : s'.doing = Function.update s.doing worker doing) : Registered s' := by
  have hd : ∀ worker', s'.doing worker' = if worker' = worker then doing else s.doing worker' := by
    intro worker'
    rw [hdoing, Function.update_apply]
  refine ⟨hthrown ▸ h.thrown, fun worker' fd => ?_, fun worker' peer fd hc => ?_, fun peer hp => ?_,
    fun worker' peer fd hc => ?_, fun worker' peer hr => ?_⟩
  · have := h.interest worker' fd
    rw [hinterest, hpeers]
    grind
  · have := h.connecting worker' peer fd
    have := hto peer fd
    rw [hpeers, hidle]
    rw [hd] at hc
    grind
  · have := h.idle peer
    grind
  · have := h.serving worker' peer fd
    have := hserving peer fd
    rw [ht]
    rw [hd] at hc
    grind
  · obtain ⟨ht', hno⟩ := h.removing worker' peer (hremoving ▸ hr)
    refine ⟨ht ▸ ht', fun fd => ?_⟩
    rw [hd]
    grind

theorem handlePeerQueue (h : Registered s) (hp : Placed handlers s) {worker : Nat}
    (hd : s.doing worker = .handlePeerQueue) : Registered (s.handlePeerQueue worker) := by
  unfold Server.handlePeerQueue
  split
  case h_1 =>
    refine h.move worker .poll ?_ ?_ ?_ rfl rfl rfl rfl rfl rfl rfl <;> grind
  case h_2 peer peers hq =>
    have hmem : peer ∈ s.peersQueue worker := by
      rw [hq]
      exact List.mem_cons_self
    obtain ⟨ht, fd, hfd, hw⟩ := (hp.queue worker peer).mp hmem
    have hnone := hp.unregistered worker hfd ht
    simp only [Server.handlePeer, hfd, hnone, if_true]
    refine ⟨h.thrown, fun worker' fd' => ?_, fun worker' peer' fd' hd => ?_, fun peer' hp => ?_,
      fun worker' peer' fd' hd => ?_, fun worker' peer' hr => ?_⟩
    · have := h.interest worker' fd'
      simp only [put_apply]
      grind
    · have := h.connecting worker' peer' fd'
      have := h.idle peer'
      dsimp only at hd ⊢
      rw [put_apply]
      grind
    · have := h.idle peer'
      grind
    · have := h.serving worker' peer' fd'
      grind
    · have := h.removing worker' peer'
      grind

theorem registerFd (h : Registered s) {worker : Nat} {peer : Peer} {fd : Fd}
    (hd : s.doing worker = .onConnection peer fd) : Registered (s.registerFd worker fd) := by
  obtain ⟨hpeer, hidle⟩ := h.connecting worker peer fd hd
  have hno : s.interest worker fd = false := by
    have := h.interest worker fd
    grind
  unfold Server.registerFd
  rw [if_neg (by simp [hno])]
  refine ⟨h.thrown, fun worker' fd' => ?_, fun worker' peer' fd' hd => ?_, h.idle,
      fun worker' peer' fd' hd => ?_, fun worker' peer' hr => ?_⟩
  · have := h.interest worker' fd'
    simp only [put_apply]
    grind
  · have := h.connecting worker' peer' fd'
    grind
  · have := h.serving worker' peer' fd'
    grind
  · have := h.removing worker' peer'
    grind

theorem removePeer (h : Registered s) (hp : Placed handlers s) {worker : Nat} {peer : Peer}
    (hr : s.removing worker = .removePeer peer) : Registered (s.removePeer worker peer) := by
  obtain ⟨ht, hd⟩ := h.removing worker peer hr
  unfold Server.removePeer
  split
  case h_1 =>
    refine ⟨h.thrown, h.interest, h.connecting, h.idle, h.serving, fun worker' peer' hr => ?_⟩
    have := h.removing worker' peer'
    grind
  case h_2 fd hfd =>
    have hpeer := (hp.peers worker fd peer).mpr ⟨hfd, ht⟩
    have hin := (h.interest worker fd).mpr ⟨peer, hpeer, hd fd⟩
    rw [if_pos hin]
    refine ⟨h.thrown, fun worker' fd' => ?_, fun worker' peer' fd' hd => ?_, h.idle, h.serving,
      fun worker' peer' hr => ?_⟩
    · have := h.interest worker' fd'
      simp only [put_apply]
      grind
    · have := h.connecting worker' peer' fd'
      simp only [put_apply]
      grind
    · have := h.removing worker' peer'
      grind

theorem advance (h : Registered s) (hp : Placed handlers s) (worker : Nat) :
    Registered (s.advance worker) := by
  unfold Server.advance
  split
  case h_1 peer hr => exact h.removePeer hp hr
  case h_2 peer fd hr =>
    split
    · exact h
    · refine ⟨h.thrown, h.interest, h.connecting, h.idle, h.serving, fun worker' peer' hr' => ?_⟩
      have := h.removing worker' peer'
      grind
  case h_3 peer fd hr =>
    refine ⟨h.thrown, h.interest, h.connecting, h.idle, h.serving, fun worker' peer' hr' => ?_⟩
    have := h.removing worker' peer'
    grind
  case h_4 hr =>
    split
    case h_1 => exact h
    case h_2 => exact h
    case h_3 hd => exact h.handlePeerQueue hp hd
    case h_4 peer fd hd => exact h.registerFd hd
    case h_5 peer fd hd =>
      have ht := h.serving worker peer fd (.inr (.inl hd))
      refine h.move worker (.handleIncoming peer fd) ?_ ?_ ?_ rfl rfl rfl rfl rfl
        rfl rfl <;> grind
    case h_6 peer hd =>
      have ht := h.serving worker peer 0 (.inr (.inr hd))
      refine ⟨h.thrown, fun worker' fd' => ?_, fun worker' peer' fd' hd' => ?_, h.idle,
        fun worker' peer' fd' hd' => ?_, fun worker' peer' hr' => ?_⟩
      · have := h.interest worker' fd'
        grind
      · have := h.connecting worker' peer' fd'
        grind
      · have := h.serving worker' peer' fd'
        grind
      · have := h.removing worker' peer'
        grind

theorem handleIncoming (h : Registered s) {worker : Nat} {peer : Peer} {fd : Fd} (length : Nat)
    (hd : s.doing worker = .handleIncoming peer fd) :
    Registered (s.handleIncoming worker peer fd length) := by
  have ht := h.serving worker peer fd (.inl hd)
  have hfrom : ∀ peer fd, s.doing worker ≠ .onConnection peer fd := by grind
  have hdis : Registered (s.handlePeerDisconnection worker peer) := by
    refine h.move worker (.onDisconnection peer) hfrom ?_ ?_ rfl rfl rfl rfl rfl rfl rfl <;> grind
  unfold Server.handleIncoming
  split
  · exact hdis
  · dsimp only
    split
    · split
      · exact hdis
      · refine h.move worker .poll hfrom ?_ ?_ rfl rfl rfl rfl rfl rfl rfl <;> grind
    · refine h.move worker (.onInput peer fd) hfrom ?_ ?_ rfl rfl rfl rfl rfl rfl rfl <;> grind

theorem onReady (h : Registered s) (hp : Placed handlers s) {worker : Nat}
    (hd : s.doing worker = .poll) : Registered (s.onReady worker) := by
  have hfrom : ∀ peer fd, s.doing worker ≠ .onConnection peer fd := by grind
  unfold Server.onReady
  split
  · exact h
  · refine h.move worker .handlePeerQueue hfrom ?_ ?_ rfl rfl rfl rfl rfl rfl rfl <;> grind
  case h_3 fd fds hfds =>
    split
    · exact ⟨h.thrown, h.interest, h.connecting, h.idle, h.serving, h.removing⟩
    case h_2 peer actual hpeer =>
      have ht : s.transport_ peer = some worker := by
        obtain ⟨peer', hp', hmap⟩ := Option.bind_eq_some_iff.mp hpeer
        have := (hp.peers worker fd peer').mp hp'
        grind
      refine h.move worker (.handleIncoming peer actual) hfrom ?_ ?_ rfl rfl rfl rfl rfl rfl rfl <;>
        grind

theorem checkIdlePeers (h : Registered s) (hp : Placed handlers s) {worker : Nat} {fd : Fd}
    {peer : Peer} (hd : s.doing worker = .poll) (hpeer : s.peers_ worker fd = some peer) :
    Registered { s with idle := Function.update s.idle peer true } := by
  have ht := ((hp.peers worker fd peer).mp hpeer).2
  refine ⟨h.thrown, h.interest, fun worker' peer' fd' hd' => ?_, fun peer' hi => ?_, h.serving,
    h.removing⟩
  · have := h.connecting worker' peer' fd' hd'
    have := hp.peers worker' fd' peer'
    grind
  · have := h.idle peer'
    grind

theorem startRemoving (h : Registered s) {worker : Nat} {peer : Peer}
    (ht : s.transport_ peer = some worker) (hi : s.idle peer = true) :
    Registered { s with removing := Function.update s.removing worker (.removePeer peer) } := by
  refine ⟨h.thrown, h.interest, h.connecting, h.idle, h.serving, fun worker' peer' hr => ?_⟩
  have := h.removing worker' peer'
  have := h.connecting worker peer
  grind

/-- The poller reports an event. -/
theorem report (h : Registered s) {pending : Nat → Fd → Bool} {queued : Nat → Bool}
    {fds : Nat → List Ready} : Registered { s with pending, queued, fds } :=
  ⟨h.thrown, h.interest, h.connecting, h.idle, h.serving, h.removing⟩

end Registered

/-! ## The deques -/

structure Guarded (handlers : Nat) (s : Server) : Prop where
  held : ∀ worker, s.toWriteLock worker = true ↔
    s.listener.lock = some worker ∨ (s.removing worker).lock = true
  excluded : ∀ worker, s.listener.lock = some worker → (s.removing worker).lock = false
  pushed : ∀ peer worker fd, s.listener = .pushed peer worker ∨ s.listener = .locked peer worker →
    s.fd_ peer = some fd → fd % handlers = worker
  emplacing : ∀ worker fd, s.listener = .emplacing worker fd →
    s.conn fd ≠ none ∧ fd % handlers = worker
  toWrite : ∀ worker fd, s.toWrite worker fd ≠ none → s.conn fd ≠ none ∧ fd % handlers = worker

namespace Guarded

variable {handlers : Nat} {s s' : Server}

theorem handleNewConnection (h : Guarded handlers s) (fd : Fd) :
    Guarded handlers (s.handleNewConnection handlers fd) := by
  unfold Server.handleNewConnection
  split
  case isFalse => exact h
  case isTrue hc =>
    obtain ⟨hl, hfree⟩ := hc
    refine ⟨fun worker => ?_, fun worker hw => ?_, fun peer worker fd' hl hfd => ?_,
      fun worker fd' hl => ?_, fun worker fd' ht => ?_⟩
    · have := h.held worker
      rw [hl] at this
      exact this
    · cases hw
    · grind
    · cases hl
    · have := h.toWrite worker fd'
      grind

theorem handleNewPeer (h : Guarded handlers s) (hp : Placed handlers s) :
    Guarded handlers s.handleNewPeer := by
  unfold Server.handleNewPeer
  split
  case h_1 => exact h
  case h_2 peer worker hl =>
    split
    · exact h
    · refine ⟨fun worker' => ?_, fun worker' hw => ?_, fun peer' worker' fd' hl' hfd => ?_,
        fun worker' fd' he => ?_, h.toWrite⟩
      · have := h.held worker'
        rw [hl] at this
        grind [Listening.lock]
      · have := h.held worker'
        grind [Listening.lock]
      · have := h.pushed peer' worker' fd'
        grind
      · cases he
  case h_3 peer worker hl =>
    split
    · refine ⟨fun worker' => ?_, fun worker' hw => ?_, fun peer' worker' fd' hl' hfd => ?_,
        fun worker' fd' he => ?_, h.toWrite⟩
      · have := h.held worker'
        have := h.excluded worker'
        rw [hl] at *
        grind [Listening.lock]
      · cases hw
      · rcases hl' with hl' | hl' <;> cases hl'
      · cases he
    case h_2 fd hfd =>
      refine ⟨fun worker' => ?_, fun worker' hw => ?_, fun peer' worker' fd' hl' hfd => ?_,
        fun worker' fd' he => ?_, h.toWrite⟩
      · have := h.held worker'
        rw [hl] at this
        exact this
      · have := h.excluded worker'
        rw [hl] at this
        exact this hw
      · rcases hl' with hl' | hl' <;> cases hl'
      · have := h.pushed peer worker fd (.inr hl) hfd
        have := hp.conn peer fd hfd
        grind
  case h_4 worker fd hl =>
    refine ⟨fun worker' => ?_, fun worker' hw => ?_, fun peer' worker' fd' hl' hfd => ?_,
      fun worker' fd' he => ?_, fun worker' fd' ht => ?_⟩
    · have := h.held worker'
      have := h.excluded worker'
      rw [hl] at *
      grind [Listening.lock]
    · cases hw
    · rcases hl' with hl' | hl' <;> cases hl'
    · cases he
    · have := h.toWrite worker' fd'
      have := h.emplacing worker fd hl
      dsimp only at ht
      rw [put_apply] at ht
      grind

/-- The locks stay as they are, and so do the deques and the connections. -/
theorem congr (h : Guarded handlers s) (hlock : s'.toWriteLock = s.toWriteLock)
    (hlistener : s'.listener = s.listener) (hconn : s'.conn = s.conn)
    (hto : s'.toWrite = s.toWrite)
    (hfd : ∀ peer fd, s'.fd_ peer = some fd → s.fd_ peer = some fd)
    (hremoving : ∀ worker, (s'.removing worker).lock = (s.removing worker).lock) :
    Guarded handlers s' where
  held worker := by
    rw [hlock, hlistener, hremoving]
    exact h.held worker
  excluded worker hw := by
    rw [hremoving]
    exact h.excluded worker (hlistener ▸ hw)
  pushed peer worker fd hl hp := h.pushed peer worker fd (hlistener ▸ hl) (hfd peer fd hp)
  emplacing worker fd hl := by
    rw [hconn]
    exact h.emplacing worker fd (hlistener ▸ hl)
  toWrite worker fd ht := by
    rw [hconn]
    exact h.toWrite worker fd (hto ▸ ht)

theorem kept (h : Guarded handlers s) (k : Kept s s') : Guarded handlers s' :=
  h.congr k.toWriteLock k.listener k.conn k.toWrite (fun _ _ hp => k.fd_ ▸ hp)
    fun worker => by rw [k.removing]

theorem removePeer (h : Guarded handlers s) {worker : Nat} {peer : Peer}
    (hr : s.removing worker = .removePeer peer) : Guarded handlers (s.removePeer worker peer) := by
  unfold Server.removePeer
  split
  · refine h.congr rfl rfl rfl rfl (fun _ _ hp => hp) fun worker' => ?_
    grind [Removing.lock]
  · split
    · refine h.congr rfl rfl rfl rfl (fun peer' fd' hp => ?_) fun worker' => ?_
      · grind
      · grind [Removing.lock]
    · exact h.congr rfl rfl rfl rfl (fun _ _ hp => hp) fun _ => rfl

theorem closeFd (h : Guarded handlers s) {worker : Nat}
    (peer : Peer) (fd : Fd) (hfree : s.toWriteLock worker = false) :
    Guarded handlers { s with
      toWriteLock := Function.update s.toWriteLock worker true
      removing := Function.update s.removing worker (.locked peer fd) } := by
  refine ⟨fun worker' => ?_, fun worker' hw => ?_, h.pushed, h.emplacing, h.toWrite⟩
  · have := h.held worker'
    grind [Removing.lock]
  · have := h.held worker'
    have := h.excluded worker'
    grind [Removing.lock]

theorem closed (h : Guarded handlers s) {worker : Nat} {peer : Peer} {fd : Fd}
    (hr : s.removing worker = .locked peer fd) (hw : fd % handlers = worker) :
    Guarded handlers { s with
      toWrite := put s.toWrite worker fd none
      conn := Function.update s.conn fd none
      toWriteLock := Function.update s.toWriteLock worker false
      removing := Function.update s.removing worker .no } := by
  refine ⟨fun worker' => ?_, fun worker' hw => ?_, h.pushed, fun worker' fd' hl => ?_,
    fun worker' fd' ht => ?_⟩
  · have := h.held worker'
    have := h.excluded worker'
    grind [Removing.lock]
  · have := h.excluded worker'
    grind [Removing.lock]
  · have := h.emplacing worker' fd' hl
    have := h.excluded worker'
    grind [Removing.lock, Listening.lock]
  · have := h.toWrite worker' fd'
    dsimp only at ht
    rw [put_apply] at ht
    grind

theorem handleWriteQueue (h : Guarded handlers s) (hp : Placed handlers s) (worker : Nat)
    (write : WriteEntry) : Guarded handlers (s.handleWriteQueue worker write) := by
  unfold Server.handleWriteQueue
  split
  · exact h
  · split
    · exact h
    case h_2.isFalse fd hfd hpeer =>
      refine ⟨h.held, h.excluded, h.pushed, h.emplacing, fun worker' fd' ht => ?_⟩
      have := h.toWrite worker' fd'
      obtain ⟨peer, hpeer⟩ := Option.ne_none_iff_exists'.mp hpeer
      obtain ⟨hfd', ht'⟩ := (hp.peers worker fd peer).mp hpeer
      have := hp.conn peer fd hfd'
      have := hp.worker peer worker fd ht' hfd'
      dsimp only at ht
      rw [put_apply] at ht
      grind

theorem asyncWriteImpl (h : Guarded handlers s) (worker : Nat) (fd : Fd) (sent : Option Nat) :
    Guarded handlers (s.asyncWriteImpl worker fd sent) := by
  unfold Server.asyncWriteImpl
  split
  case h_1 => exact h
  case h_2 => exact h
  case h_3 wq hne hwq =>
    have hto := h.toWrite worker fd (by rw [hwq]; exact Option.some_ne_none wq)
    split <;> refine ⟨h.held, h.excluded, h.pushed, h.emplacing, fun worker' fd' ht => ?_⟩ <;>
      have := h.toWrite worker' fd' <;> dsimp only at ht <;> rw [put_apply] at ht <;> grind

theorem advance (h : Guarded handlers s) (hp : Placed handlers s) (worker : Nat) :
    Guarded handlers (s.advance worker) := by
  unfold Server.advance
  split
  case h_1 peer hr => exact h.removePeer hr
  case h_2 peer fd hr =>
    split
    · exact h
    case isFalse hl => exact h.closeFd _ _ (by simpa using hl)
  case h_3 peer fd hr => exact h.closed hr (hp.closing worker peer fd (.inr hr)).2.2.2
  case h_4 hr =>
    split
    · exact h
    · exact h
    · unfold Server.handlePeerQueue
      split
      · exact h.congr rfl rfl rfl rfl (fun _ _ hp => hp) fun _ => rfl
      · unfold Server.handlePeer
        split
        · exact h.congr rfl rfl rfl rfl (fun _ _ hp => hp) fun _ => rfl
        · exact h.congr rfl rfl rfl rfl (fun _ _ hp => hp) fun _ => rfl
    · exact h.kept (.registerFd s worker _)
    · exact h.congr rfl rfl rfl rfl (fun _ _ hp => hp) fun _ => rfl
    · refine h.congr rfl rfl rfl rfl (fun _ _ hp => hp) fun worker' => ?_
      grind [Removing.lock]

theorem startRemoving (h : Guarded handlers s) {worker : Nat} {peer : Peer}
    (hout : s.outside worker = true) :
    Guarded handlers { s with
      removing := Function.update s.removing worker (.removePeer peer) } := by
  refine h.congr rfl rfl rfl rfl (fun _ _ hp => hp) fun worker' => ?_
  unfold Server.outside at hout
  grind [Removing.lock]

end Guarded

/-! ## All events -/

structure Inv (handlers : Nat) (s : Server) : Prop where
  placed : Placed handlers s
  registered : Registered s
  guarded : Guarded handlers s

variable {handlers : Nat} {s s' : Server}

namespace Inv

theorem init : Inv handlers {} where
  placed := {
    fresh := fun _ _ => ⟨rfl, rfl⟩
    conn := fun _ _ hp => by cases hp
    place := fun _ _ hp => by cases hp
    queue := fun _ _ => by simp
    nodup := fun _ => List.nodup_nil
    peers := fun _ _ _ => by simp
    worker := fun _ _ _ hp => by cases hp
    closing := fun _ _ _ hp => by rcases hp with hp | hp <;> cases hp }
  registered := {
    thrown := rfl
    interest := fun _ _ => by simp
    connecting := fun _ _ _ hp => by cases hp
    idle := fun _ hp => by cases hp
    serving := fun _ _ _ hp => by rcases hp with hp | hp | hp <;> cases hp
    removing := fun _ _ hp => by cases hp }
  guarded := {
    held := fun _ => by simp [Listening.lock, Removing.lock]
    excluded := fun _ hp => by cases hp
    pushed := fun _ _ _ hp => by rcases hp with hp | hp <;> cases hp
    emplacing := fun _ _ hp => by cases hp
    toWrite := fun _ _ hp => absurd rfl hp }

theorem kept (h : Inv handlers s) (k : Kept s s') (hr : Registered s') : Inv handlers s' :=
  ⟨h.placed.kept k, hr, h.guarded.kept k⟩

theorem happens (h : Inv handlers s) (fd : Fd) (socket : Socket → Socket) :
    Inv handlers (s.happens fd socket) :=
  h.kept (.happens s fd socket) (h.registered.happens fd socket)

theorem advance (h : Inv handlers s) (worker : Nat) : Inv handlers (s.advance worker) :=
  ⟨h.placed.advance worker fun peer hr => (h.registered.removing worker peer hr).1,
    h.registered.advance h.placed worker, h.guarded.advance h.placed worker⟩

/-- Only the deques are concerned. -/
theorem deques (h : Inv handlers s) (toWrite : Nat → Fd → Option (List WriteEntry))
    (hg : Guarded handlers { s with toWrite }) : Inv handlers { s with toWrite } :=
  ⟨h.placed.congr rfl rfl rfl rfl rfl rfl fun _ _ _ => Iff.rfl,
    ⟨h.registered.thrown, h.registered.interest, h.registered.connecting, h.registered.idle,
      h.registered.serving, h.registered.removing⟩, hg⟩

theorem handleWriteQueue (h : Inv handlers s) (worker : Nat) (write : WriteEntry) :
    Inv handlers (s.handleWriteQueue worker write) := by
  have hg := h.guarded.handleWriteQueue h.placed worker write
  unfold Server.handleWriteQueue at hg ⊢
  split at hg
  · exact h
  · split at hg
    case isTrue hnone =>
      rw [if_pos hnone]
      exact h
    case isFalse hsome =>
      rw [if_neg hsome]
      exact h.deques _ hg

theorem asyncWriteImpl (h : Inv handlers s) (worker : Nat) (fd : Fd) (sent : Option Nat) :
    Inv handlers (s.asyncWriteImpl worker fd sent) := by
  have hg := h.guarded.asyncWriteImpl worker fd sent
  unfold Server.asyncWriteImpl at hg ⊢
  split at hg
  · exact h
  · exact h
  · split at hg
    · exact h.deques _ hg
    · exact h.deques _ hg
    · exact h.deques _ hg

theorem step (h : Inv handlers s) (event : Event) : Inv handlers (s.step handlers event) := by
  have hpolls : ∀ {worker}, s.polls worker = true → s.doing worker = .poll := by
    unfold Server.polls
    grind
  unfold Server.step
  rw [if_neg (by rw [h.registered.thrown]; exact Bool.false_ne_true)]
  cases event with
  | handleNewConnection fd =>
    exact ⟨h.placed.handleNewConnection fd, h.registered.handleNewConnection fd,
      h.guarded.handleNewConnection fd⟩
  | handleNewPeer =>
    exact ⟨h.placed.handleNewPeer, h.registered.handleNewPeer, h.guarded.handleNewPeer h.placed⟩
  | arrive fd bytes => exact h.happens fd _
  | finish fd => exact h.happens fd _
  | reset fd => exact h.happens fd _
  | pollQueue worker =>
    dsimp only
    split
    · exact h.kept ⟨rfl, rfl, rfl, rfl, rfl, rfl, rfl, rfl, rfl, rfl⟩ h.registered.report
    · exact h
  | poll worker fd =>
    dsimp only
    split
    · exact h.kept ⟨rfl, rfl, rfl, rfl, rfl, rfl, rfl, rfl, rfl, rfl⟩ h.registered.report
    · exact h
  | onReady worker =>
    dsimp only
    split
    case isTrue hpoll =>
      exact h.kept (.onReady s worker) (h.registered.onReady h.placed (hpolls hpoll))
    case isFalse => exact h
  | recv worker length =>
    dsimp only
    split
    case h_1 peer fd hr hd =>
      exact h.kept (.handleIncoming s worker peer fd length) (h.registered.handleIncoming length hd)
    case h_2 => exact h
  | advance worker => exact h.advance worker
  | checkIdlePeers worker fd =>
    dsimp only
    split
    case isTrue hpoll =>
      split
      · exact h
      case h_2 peer hpeer =>
        exact h.kept ⟨rfl, rfl, rfl, rfl, rfl, rfl, rfl, rfl, rfl, rfl⟩
          (h.registered.checkIdlePeers h.placed (hpolls hpoll) hpeer)
    case isFalse => exact h
  | removePeer peer =>
    dsimp only
    split
    · exact h
    case h_2 worker ht =>
      split
      case isTrue hout =>
        rw [Bool.and_eq_true] at hout
        exact ⟨h.placed.startRemoving hout.1, h.registered.startRemoving ht hout.2,
          h.guarded.startRemoving hout.1⟩
      case isFalse => exact h
  | handleWriteQueue worker write =>
    dsimp only
    split
    · exact h.handleWriteQueue worker write
    · exact h
  | asyncWriteImpl worker fd sent =>
    dsimp only
    split
    · exact h.asyncWriteImpl worker fd sent
    · exact h

theorem run (events : List Event) : Inv handlers (Server.run handlers {} events) :=
  Machine.run_inv (fun s event (h : Inv handlers s) => h.step event) events _ init

end Inv

/-- A connection that is open is in one place, which belongs to its own worker; what the
transports have of a file descriptor is its connection's; and no call of a poller fails. -/
structure Owned (handlers : Nat) (s : Server) : Prop where
  thrown : s.thrown = false
  place : ∀ fd peer, s.conn fd = some peer →
    (peer ∈ s.peersQueue (fd % handlers) ∨ s.peers_ (fd % handlers) fd = some peer ∨
      s.Closing (fd % handlers) peer fd) ∧
    (peer ∈ s.peersQueue (fd % handlers) → s.peers_ (fd % handlers) fd = none) ∧
    (s.Closing (fd % handlers) peer fd →
      peer ∉ s.peersQueue (fd % handlers) ∧ s.peers_ (fd % handlers) fd = none)
  queue : ∀ worker, ∀ peer ∈ s.peersQueue worker,
    ∃ fd, fd % handlers = worker ∧ s.conn fd = some peer
  peers : ∀ worker fd peer, s.peers_ worker fd = some peer →
    fd % handlers = worker ∧ s.conn fd = some peer
  watched : ∀ worker fd, s.interest worker fd = true →
    fd % handlers = worker ∧ ∃ peer, s.peers_ worker fd = some peer
  toWrite : ∀ worker fd, s.toWrite worker fd ≠ none →
    fd % handlers = worker ∧ ∃ peer, s.conn fd = some peer

theorem Inv.owned (h : Inv handlers s) : Owned handlers s where
  thrown := h.registered.thrown
  place fd peer hc := by
    have hp := h.placed
    have hqueue := hp.queue (fd % handlers) peer
    refine ⟨?_, fun hq => ?_, fun hclosing => ?_⟩
    · rcases hp.place fd peer hc with hfd | hclosing
      · cases ht : s.transport_ peer with
        | none => exact .inl (hqueue.mpr ⟨ht, fd, hfd, rfl⟩)
        | some worker =>
          have hw := hp.worker peer worker fd ht hfd
          exact .inr (.inl ((hp.peers _ fd peer).mpr ⟨hfd, hw ▸ ht⟩))
      · exact .inr (.inr hclosing)
    · obtain ⟨ht, fd', hfd, -⟩ := hqueue.mp hq
      cases hp.conn_inj _ _ _ hc (hp.conn peer fd' hfd)
      exact hp.unregistered _ hfd ht
    · obtain ⟨-, hfd, -, -⟩ := hp.closing _ peer fd hclosing
      refine ⟨fun hq => ?_, ?_⟩
      · obtain ⟨-, fd', hfd', -⟩ := hqueue.mp hq
        rw [hfd] at hfd'
        cases hfd'
      · cases hother : s.peers_ (fd % handlers) fd with
        | none => rfl
        | some other =>
          obtain ⟨hfd', -⟩ := (hp.peers _ fd other).mp hother
          cases hc.symm.trans (hp.conn other fd hfd')
          rw [hfd] at hfd'
          cases hfd'
  queue worker peer hq := by
    obtain ⟨-, fd, hfd, hw⟩ := (h.placed.queue worker peer).mp hq
    exact ⟨fd, hw, h.placed.conn peer fd hfd⟩
  peers worker fd peer hpeer := by
    obtain ⟨hfd, ht⟩ := (h.placed.peers worker fd peer).mp hpeer
    exact ⟨h.placed.worker peer worker fd ht hfd, h.placed.conn peer fd hfd⟩
  watched worker fd hi := by
    obtain ⟨peer, hpeer, -⟩ := (h.registered.interest worker fd).mp hi
    obtain ⟨hfd, ht⟩ := (h.placed.peers worker fd peer).mp hpeer
    exact ⟨h.placed.worker peer worker fd ht hfd, peer, hpeer⟩
  toWrite worker fd ht := by
    obtain ⟨hc, hw⟩ := h.guarded.toWrite worker fd ht
    exact ⟨hw, Option.ne_none_iff_exists'.mp hc⟩

/-- In all states of all runs, whatever the kernel does with the numbers it has closed. -/
theorem connections_owned (handlers : Nat) (events : List Event) :
    Owned handlers (run handlers {} events) :=
  (Inv.run events).owned

end Server

end Pistache.Tcp
