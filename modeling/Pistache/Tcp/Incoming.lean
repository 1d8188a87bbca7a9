import Pistache.Tcp.Places

/-!
# What the handler sees of a connection

The calls of the handler for one peer are a session: `onConnection`, then the input, then
`onDisconnection`.  The loop of `handleIncoming` reads from the file descriptor it was started
with; `Event.Apart` says that the kernel does not give out its number while the loop still runs,
which it can when the peer is removed during the call of `onInput`.

* `Session.of` — the session of one peer, if the calls for it are in order.
* `Follows` — the calls of each peer are a session, and the input is what has been read from its
  own socket.
-/

set_option autoImplicit false

namespace Pistache.Tcp

/-! ## Sessions -/

def Callback.peer : Callback → Peer
  | .onConnection peer | .onInput peer _ | .onDisconnection peer => peer

/-- What the handler has been told of a connection. -/
structure Session where
  connected : Bool := false
  inputs : List Bytes := []
  disconnected : Bool := false
  deriving DecidableEq

namespace Session

/-- `none` for a call out of order. -/
def call (session : Session) : Callback → Option Session
  | .onConnection _ => if session.connected then none else some { session with connected := true }
  | .onInput _ buffer =>
    if session.connected && !session.disconnected && buffer ≠ [] then
      some { session with inputs := session.inputs ++ [buffer] }
    else none
  | .onDisconnection _ =>
    if session.connected && !session.disconnected then some { session with disconnected := true }
    else none

section Call

variable {session session' : Session} {peer : Peer} {buffer : Bytes}

theorem call_onConnection (h : session.call (.onConnection peer) = some session') :
    session.connected = false ∧ session' = { session with connected := true } := by
  simp only [call] at h
  split at h
  · cases h
  case isFalse hno =>
    cases h
    exact ⟨by simpa using hno, rfl⟩

theorem call_onInput (h : session.call (.onInput peer buffer) = some session') :
    session.connected = true ∧ buffer ≠ [] ∧
      session' = { session with inputs := session.inputs ++ [buffer] } := by
  simp only [call] at h
  split at h
  case isTrue hok =>
    cases h
    simp only [Bool.and_eq_true, decide_eq_true_eq] at hok
    exact ⟨hok.1.1, hok.2, rfl⟩
  · cases h

theorem call_onDisconnection (h : session.call (.onDisconnection peer) = some session') :
    session' = { session with disconnected := true } := by
  simp only [call] at h
  split at h
  · cases h
    rfl
  · cases h

end Call

/-- The session of one peer. -/
def of (calls : List Callback) (peer : Peer) : Option Session :=
  (calls.filter fun c => c.peer = peer).foldlM call {}

theorem of_call {calls : List Callback} {c : Callback} {peer : Peer} {session session' : Session}
    (h : of calls peer = some session) (hpeer : c.peer = peer) (hcall : session.call c = some session') :
    of (calls ++ [c]) peer = some session' := by
  unfold of at h ⊢
  simp [List.filter_append, hpeer, h, hcall]

theorem of_other {calls : List Callback} {c : Callback} {peer : Peer} {session : Session}
    (h : of calls peer = some session) (hpeer : c.peer ≠ peer) :
    of (calls ++ [c]) peer = some session := by
  unfold of at h ⊢
  simp [List.filter_append, hpeer, h]

theorem of_append (calls : List Callback) (c : Callback) (peer : Peer) :
    of (calls ++ [c]) peer =
      (of calls peer).bind fun session => if c.peer = peer then session.call c else some session := by
  by_cases hpeer : c.peer = peer
  · simp [of, List.filter_append, hpeer]
  · simp [of, List.filter_append, hpeer]

/-- Input comes behind `onConnection`, and none of it is empty. -/
structure Valid (session : Session) : Prop where
  connected : session.connected = false → session.inputs = []
  nonempty : ∀ x ∈ session.inputs, x ≠ []

theorem Valid.call {session session' : Session} (h : Valid session) {c : Callback}
    (hcall : session.call c = some session') : Valid session' := by
  cases c with
  | onConnection peer =>
    obtain ⟨hno, rfl⟩ := call_onConnection hcall
    exact ⟨fun hcon => (by cases hcon), h.nonempty⟩
  | onInput peer buffer =>
    obtain ⟨hyes, hne, rfl⟩ := call_onInput hcall
    refine ⟨fun hcon => absurd hyes (by simpa using hcon), fun x hx => ?_⟩
    rcases List.mem_append.mp hx with hx | hx
    · exact h.nonempty x hx
    · rw [List.mem_singleton.mp hx]
      exact hne
  | onDisconnection peer =>
    cases call_onDisconnection hcall
    exact ⟨h.connected, h.nonempty⟩

theorem Valid.foldlM : ∀ (calls : List Callback) {session session' : Session}, Valid session →
    calls.foldlM Session.call session = some session' → Valid session'
  | [], _, _, h, hrun => by
    cases hrun
    exact h
  | c :: calls, _, _, h, hrun => by
    rw [List.foldlM_cons] at hrun
    obtain ⟨next, hnext, hrest⟩ := Option.bind_eq_some_iff.mp hrun
    exact Valid.foldlM calls (h.call hnext) hrest

theorem valid {calls : List Callback} {peer : Peer} {session : Session}
    (h : of calls peer = some session) : Valid session :=
  Valid.foldlM _ ⟨fun _ => rfl, by simp⟩ h

end Session

/-- The file descriptor from which the loop of `handleIncoming` reads. -/
def Doing.reads : Doing → Option Fd
  | .handleIncoming _ fd | .onInput _ fd => some fd
  | _ => none

/-- The loop of `handlePeerQueue` runs. -/
def Doing.takes : Doing → Bool
  | .handlePeerQueue | .onConnection .. => true
  | _ => false

namespace Server

/-- The kernel does not give out a number from which `handleIncoming` still reads. -/
def Event.Apart (handlers : Nat) (s : Server) : Event → Prop
  | .handleNewConnection fd => (s.doing (fd % handlers)).reads ≠ some fd
  | _ => True

instance (handlers : Nat) (s : Server) : DecidablePred (Event.Apart handlers s)
  | .handleNewConnection fd => inferInstanceAs (Decidable ((s.doing (fd % handlers)).reads ≠ some fd))
  | .handleNewPeer | .arrive .. | .finish _ | .reset _ | .pollQueue _ | .poll .. | .onReady _
  | .recv .. | .advance _ | .checkIdlePeers .. | .removePeer _ | .handleWriteQueue ..
  | .asyncWriteImpl .. => inferInstanceAs (Decidable True)

/-! ## One event -/

/-- What the calls for one peer have come to, and what of the threads they are bound to. -/
structure Fits (s : Server) (peer : Peer) (session : Session) : Prop where
  input : session.inputs.flatten = (s.socket peer).taken
  connected : session.connected = true ↔ s.transport_ peer ≠ none
  order : session.disconnected = true → session.connected = true
  ended : session.disconnected = true →
    s.idle peer = true ∨ (s.socket peer).unread = [] ∧ (s.socket peer).ended = true
  gone : peer < s.next → s.fd_ peer = none → session.disconnected = true ∨ s.idle peer = true
  going : ∀ worker, session.disconnected = true → s.transport_ peer = some worker →
    s.fd_ peer = none ∨ s.doing worker = .onDisconnection peer ∨
      s.removing worker = .removePeer peer
  serving : ∀ worker fd, s.doing worker = .onConnection peer fd ∨
    s.doing worker = .handleIncoming peer fd ∨ s.doing worker = .onInput peer fd →
      session.disconnected = false
  leaving : ∀ worker, s.doing worker = .onDisconnection peer → session.disconnected = true
  removing : ∀ worker, s.removing worker = .removePeer peer →
    session.disconnected = true ∨ s.idle peer = true

structure Follows (handlers : Nat) (s : Server) : Prop where
  sessions : ∀ peer, ∃ session, Session.of s.calls peer = some session ∧ Fits s peer session
  reading : ∀ worker peer fd, s.doing worker = .handleIncoming peer fd ∨
    s.doing worker = .onInput peer fd → fd % handlers = worker ∧
      (s.conn fd = some peer ∨ s.conn fd = none ∧ s.fd_ peer = none)

/-- A peer is served by its own worker. -/
theorem Registered.transport_of_doing {handlers : Nat} {s : Server} (hr : Registered s)
    (hp : Placed handlers s) (worker : Nat) (peer : Peer) (fd : Fd)
    (hd : s.doing worker = .onConnection peer fd ∨ s.doing worker = .handleIncoming peer fd ∨
      s.doing worker = .onInput peer fd) : s.transport_ peer = some worker := by
  rcases hd with hd | hd | hd
  · exact ((hp.peers worker fd peer).mp (hr.connecting worker peer fd hd).1).2
  · exact hr.serving worker peer fd (.inl hd)
  · exact hr.serving worker peer fd (.inr (.inl hd))

namespace Follows

variable {handlers : Nat} {s s' : Server}

theorem handleNewConnection (h : Follows handlers s) (hp : Placed handlers s) (hr : Registered s)
    {fd : Fd} (hapart : (s.doing (fd % handlers)).reads ≠ some fd) :
    Follows handlers (s.handleNewConnection handlers fd) := by
  unfold Server.handleNewConnection
  split
  case isFalse => exact h
  case isTrue hc =>
    obtain ⟨-, hfree⟩ := hc
    obtain ⟨hnone, htnone⟩ := hp.fresh s.next (Nat.le_refl _)
    refine ⟨fun peer => ?_, fun worker peer fd' hd => ?_⟩
    · obtain ⟨session, hof, hfits⟩ := h.sessions peer
      refine ⟨session, hof, hfits.input, hfits.connected, hfits.order, hfits.ended, ?_,
        fun worker => ?_, hfits.serving, hfits.leaving, hfits.removing⟩
      · have := hfits.gone
        have := hp.fresh peer
        grind
      · have := hfits.going worker
        grind
    · have hne : fd' ≠ fd := by
        rintro rfl
        obtain ⟨hw, -⟩ := h.reading worker peer fd' hd
        grind [Doing.reads]
      have := hr.serving worker peer fd'
      have := h.reading worker peer fd' hd
      grind

theorem happens (h : Follows handlers s) (fd : Fd) {socket : Socket → Socket}
    (htaken : ∀ x, (socket x).taken = x.taken) : Follows handlers (s.happens fd socket) := by
  unfold Server.happens
  split
  case h_1 => exact h
  case h_2 peer hc =>
    split
    case isTrue => exact h
    case isFalse hne =>
      refine ⟨fun peer' => ?_, h.reading⟩
      obtain ⟨session, hof, hfits⟩ := h.sessions peer'
      refine ⟨session, hof, ?_, hfits.connected, hfits.order, ?_, hfits.gone, hfits.going,
        hfits.serving, hfits.leaving, hfits.removing⟩
      · have := hfits.input
        grind
      · have := hfits.ended
        grind

/-- The thread of a worker goes on to something else. -/
theorem move (h : Follows handlers s) (k : Kept s s') (worker : Nat) (doing : Doing)
    (hsocket : s'.socket = s.socket) (hidle : s'.idle = s.idle) (hcalls : s'.calls = s.calls)
    (hdoing : s'.doing = Function.update s.doing worker doing)
    (hfrom : ∀ peer, s.doing worker ≠ .onDisconnection peer)
    (hto : ∀ peer, doing ≠ .onDisconnection peer)
    (hserving : ∀ peer fd, doing = .onConnection peer fd ∨ doing = .handleIncoming peer fd ∨
      doing = .onInput peer fd → ∀ session, Fits s peer session → session.disconnected = false)
    (hreading : ∀ peer fd, doing = .handleIncoming peer fd ∨ doing = .onInput peer fd →
      fd % handlers = worker ∧ (s.conn fd = some peer ∨ s.conn fd = none ∧ s.fd_ peer = none)) :
    Follows handlers s' := by
  have hd : ∀ worker', s'.doing worker' = if worker' = worker then doing else s.doing worker' := by
    intro worker'
    rw [hdoing, Function.update_apply]
  refine ⟨fun peer => ?_, fun worker' peer fd hr => ?_⟩
  · obtain ⟨session, hof, hfits⟩ := h.sessions peer
    refine ⟨session, hcalls ▸ hof, ?_, ?_, hfits.order, ?_, ?_, fun worker' hs ht => ?_,
      fun worker' fd hs => ?_, fun worker' hs => ?_, fun worker' hs => ?_⟩
    · rw [hsocket]
      exact hfits.input
    · rw [k.transport_]
      exact hfits.connected
    · rw [hidle, hsocket]
      exact hfits.ended
    · rw [hidle, k.next, k.fd_]
      exact hfits.gone
    · rw [k.transport_] at ht
      rw [k.fd_, k.removing, hd]
      rcases hfits.going worker' hs ht with h' | h' | h'
      · exact .inl h'
      · rw [if_neg]
        · exact .inr (.inl h')
        · rintro rfl
          exact hfrom peer h'
      · exact .inr (.inr h')
    · rw [hd] at hs
      have := hfits.serving worker' fd
      have := hserving peer fd
      grind
    · rw [hd] at hs
      have := hfits.leaving worker'
      have := hto peer
      grind
    · rw [hidle]
      exact hfits.removing worker' (k.removing ▸ hs)
  · rw [hd] at hr
    rw [k.conn, k.fd_]
    have := h.reading worker' peer fd
    have := hreading peer fd
    grind

/-- No thread is concerned. -/
theorem kept (h : Follows handlers s) (k : Kept s s') (hsocket : s'.socket = s.socket)
    (hidle : ∀ peer, s.idle peer = true → s'.idle peer = true) (hcalls : s'.calls = s.calls)
    (hdoing : s'.doing = s.doing) : Follows handlers s' := by
  refine ⟨fun peer => ?_, fun worker peer fd hr => ?_⟩
  · obtain ⟨session, hof, hfits⟩ := h.sessions peer
    refine ⟨session, hcalls ▸ hof, ?_, ?_, hfits.order, fun hs => ?_, fun hlt hfd => ?_, ?_, ?_, ?_,
      fun worker hs => ?_⟩
    · rw [hsocket]
      exact hfits.input
    · rw [k.transport_]
      exact hfits.connected
    · rw [hsocket]
      exact (hfits.ended hs).imp_left (hidle peer)
    · rw [k.next] at hlt
      rw [k.fd_] at hfd
      exact (hfits.gone hlt hfd).imp_right (hidle peer)
    · rw [k.fd_, k.transport_, k.removing, hdoing]
      exact hfits.going
    · rw [hdoing]
      exact hfits.serving
    · rw [hdoing]
      exact hfits.leaving
    · exact (hfits.removing worker (k.removing ▸ hs)).imp_right (hidle peer)
  · rw [k.conn, k.fd_]
    rw [hdoing] at hr
    exact h.reading worker peer fd hr

theorem onReady (h : Follows handlers s) (hp : Placed handlers s) {worker : Nat}
    (hpoll : s.polls worker = true) : Follows handlers (s.onReady worker) := by
  obtain ⟨hn, hd⟩ : s.removing worker = .no ∧ s.doing worker = .poll := by
    unfold Server.polls at hpoll
    grind
  have k := Kept.onReady s worker
  unfold Server.onReady at k ⊢
  split
  case h_1 => exact h
  case h_2 fds hfds =>
    rw [hfds] at k
    refine h.move k worker .handlePeerQueue rfl rfl rfl rfl ?_ ?_ ?_ ?_ <;> grind
  case h_3 fd fds hfds =>
    rw [hfds] at k
    dsimp only at k
    split
    case h_1 hnone =>
      rw [hnone] at k
      exact h.kept k rfl (fun _ hi => hi) rfl rfl
    case h_2 peer actual hpeer =>
      rw [hpeer] at k
      obtain ⟨hfd, ht⟩ : s.fd_ peer = some actual ∧ s.transport_ peer = some worker := by
        obtain ⟨peer', hp', hmap⟩ := Option.bind_eq_some_iff.mp hpeer
        have := (hp.peers worker fd peer').mp hp'
        grind
      have hw := hp.worker peer worker actual ht hfd
      have hc := hp.conn peer actual hfd
      refine h.move k worker (.handleIncoming peer actual) rfl rfl rfl rfl ?_ ?_
        (fun peer' fd' hto session hfits => ?_) ?_
      · grind
      · grind
      · -- a peer that has been disconnected is not among the peers between two entries
        have := hfits.going worker
        grind
      · grind

theorem handlePeerQueue (h : Follows handlers s) (hp : Placed handlers s) {worker : Nat}
    (hd : s.doing worker = .handlePeerQueue) : Follows handlers (s.handlePeerQueue worker) := by
  unfold Server.handlePeerQueue
  split
  case h_1 =>
    refine h.move ⟨rfl, rfl, rfl, rfl, rfl, rfl, rfl, rfl, rfl, rfl⟩ worker .poll
      rfl rfl rfl rfl ?_ ?_ ?_ ?_ <;> grind
  case h_2 peer peers hq =>
    have hmem : peer ∈ s.peersQueue worker := by
      rw [hq]
      exact List.mem_cons_self
    obtain ⟨ht, fd, hfd, hw⟩ := (hp.queue worker peer).mp hmem
    have hnone := hp.unregistered worker hfd ht
    simp only [Server.handlePeer, hfd, hnone, if_true]
    refine ⟨fun peer' => ?_, fun worker' peer' fd' hd' => ?_⟩
    · obtain ⟨session, hof, hfits⟩ := h.sessions peer'
      by_cases hpeer : peer = peer'
      · subst hpeer
        have hcon : session.connected = false := by
          have := hfits.connected
          grind
        have hdis : session.disconnected = false := by
          have := hfits.order
          grind
        refine ⟨{ session with connected := true }, ?_, hfits.input, ?_, fun _ => rfl, ?_, hfits.gone,
          fun worker' hs => ?_, fun _ _ _ => hdis, fun worker' hd' => ?_, hfits.removing⟩
        · exact Session.of_call hof rfl (by simp [Session.call, hcon])
        · simp
        · exact fun hs => absurd hs (by simp [hdis])
        · exact absurd hs (by simp [hdis])
        · have := hfits.leaving worker'
          grind
      · refine ⟨session, ?_, hfits.input, ?_, hfits.order, hfits.ended, hfits.gone,
          fun worker' hs => ?_, fun worker' fd' hd' => ?_, fun worker' hd' => ?_, hfits.removing⟩
        · exact Session.of_other hof fun he => hpeer he
        · have := hfits.connected
          grind
        · have := hfits.going worker'
          grind
        · have := hfits.serving worker' fd'
          grind
        · have := hfits.leaving worker'
          grind
    · have := h.reading worker' peer' fd'
      grind

theorem advance (h : Follows handlers s) (hp : Placed handlers s) (hr : Registered s) (worker : Nat) :
    Follows handlers (s.advance worker) := by
  unfold Server.advance
  split
  case h_1 peer hrem =>
    obtain ⟨ht, hno⟩ := hr.removing worker peer hrem
    unfold Server.removePeer
    split
    case h_1 hfd =>
      refine ⟨fun peer' => ?_, h.reading⟩
      obtain ⟨session, hof, hfits⟩ := h.sessions peer'
      refine ⟨session, hof, hfits.input, hfits.connected, hfits.order, hfits.ended, hfits.gone,
        fun worker' => ?_, hfits.serving, hfits.leaving, fun worker' => ?_⟩
      · have := hfits.going worker'
        grind
      · have := hfits.removing worker'
        grind
    case h_2 fd hfd =>
      have hpeer := (hp.peers worker fd peer).mpr ⟨hfd, ht⟩
      rw [if_pos ((hr.interest worker fd).mpr ⟨peer, hpeer, hno fd⟩)]
      refine ⟨fun peer' => ?_, fun worker' peer' fd' hd => ?_⟩
      · obtain ⟨session, hof, hfits⟩ := h.sessions peer'
        refine ⟨session, hof, hfits.input, hfits.connected, hfits.order, hfits.ended, ?_,
          fun worker' => ?_, hfits.serving, hfits.leaving, fun worker' => ?_⟩
        · have := hfits.gone
          have := hfits.removing worker
          grind
        · have := hfits.going worker'
          grind
        · have := hfits.removing worker'
          grind
      · have := h.reading worker' peer' fd' hd
        grind
  case h_2 peer fd hrem =>
    split
    · exact h
    · refine ⟨fun peer' => ?_, h.reading⟩
      obtain ⟨session, hof, hfits⟩ := h.sessions peer'
      refine ⟨session, hof, hfits.input, hfits.connected, hfits.order, hfits.ended, hfits.gone,
        fun worker' => ?_, hfits.serving, hfits.leaving, fun worker' => ?_⟩
      · have := hfits.going worker'
        grind
      · have := hfits.removing worker'
        grind
  case h_3 peer fd hrem =>
    obtain ⟨hc, hfd, ht, hw⟩ := hp.closing worker peer fd (.inr hrem)
    refine ⟨fun peer' => ?_, fun worker' peer' fd' hd => ?_⟩
    · obtain ⟨session, hof, hfits⟩ := h.sessions peer'
      refine ⟨session, hof, hfits.input, hfits.connected, hfits.order, hfits.ended, hfits.gone,
        fun worker' => ?_, hfits.serving, hfits.leaving, fun worker' => ?_⟩
      · have := hfits.going worker'
        grind
      · have := hfits.removing worker'
        grind
    · have := h.reading worker' peer' fd' hd
      grind
  case h_4 hrem =>
    split
    case h_1 => exact h
    case h_2 => exact h
    case h_3 hd => exact h.handlePeerQueue hp hd
    case h_4 peer fd hd =>
      obtain ⟨hpeer, hidle⟩ := hr.connecting worker peer fd hd
      have hno : s.interest worker fd = false := by
        have := hr.interest worker fd
        grind
      unfold Server.registerFd
      rw [if_neg (by simp [hno])]
      refine h.move ⟨rfl, rfl, rfl, rfl, rfl, rfl, rfl, rfl, rfl, rfl⟩ worker .handlePeerQueue
        rfl rfl rfl rfl ?_ ?_ ?_ ?_ <;> grind
    case h_5 peer fd hd =>
      have hreading := h.reading worker peer fd (.inr hd)
      refine h.move ⟨rfl, rfl, rfl, rfl, rfl, rfl, rfl, rfl, rfl, rfl⟩ worker
        (.handleIncoming peer fd) rfl rfl rfl rfl ?_ ?_
        (fun peer' fd' hto session hfits => ?_) ?_
      · grind
      · grind
      · have := hfits.serving worker fd
        grind
      · grind
    case h_6 peer hd =>
      refine ⟨fun peer' => ?_, fun worker' peer' fd' hd => ?_⟩
      · obtain ⟨session, hof, hfits⟩ := h.sessions peer'
        refine ⟨session, hof, hfits.input, hfits.connected, hfits.order, hfits.ended, hfits.gone,
          fun worker' => ?_, fun worker' fd' => ?_, fun worker' => ?_, fun worker' => ?_⟩
        · have := hfits.going worker'
          grind
        · have := hfits.serving worker' fd'
          grind
        · have := hfits.leaving worker'
          grind
        · have := hfits.removing worker'
          have := hfits.leaving worker
          grind
      · have := h.reading worker' peer' fd'
        grind

theorem handlePeerDisconnection (h : Follows handlers s) (hp : Placed handlers s) (hr : Registered s) {worker : Nat}
    {peer : Peer} {fd : Fd} (hd : s.doing worker = .handleIncoming peer fd)
    (hended : s.idle peer = true ∨ (s.socket peer).unread = [] ∧ (s.socket peer).ended = true) :
    Follows handlers (s.handlePeerDisconnection worker peer) := by
  have ht := hr.serving worker peer fd (.inl hd)
  refine ⟨fun peer' => ?_, fun worker' peer' fd' hd => ?_⟩
  · obtain ⟨session, hof, hfits⟩ := h.sessions peer'
    by_cases hpeer : peer = peer'
    · subst hpeer
      have hno := hfits.serving worker fd (.inr (.inl hd))
      have hcon : session.connected = true := hfits.connected.mpr (by rw [ht]; exact Option.some_ne_none _)
      refine ⟨{ session with disconnected := true }, ?_, hfits.input, hfits.connected, fun _ => hcon,
        fun _ => hended, fun _ _ => .inl rfl, fun worker' _ ht' => ?_, fun worker' fd' hd' => ?_,
        fun _ _ => rfl, fun _ _ => .inl rfl⟩
      · exact Session.of_call hof rfl (by simp [Session.call, hcon, hno])
      · have hsame : worker' = worker := Option.some.inj (ht'.symm.trans ht)
        subst hsame
        simp [Server.handlePeerDisconnection]
      · have := hr.transport_of_doing hp worker' peer fd'
        dsimp only [Server.handlePeerDisconnection] at hd'
        grind
    · refine ⟨session, ?_, hfits.input, hfits.connected, hfits.order, hfits.ended, hfits.gone,
        fun worker' => ?_, fun worker' fd' => ?_, fun worker' => ?_, hfits.removing⟩
      · exact Session.of_other hof fun he => hpeer he
      · have := hfits.going worker'
        unfold Server.handlePeerDisconnection
        grind
      · have := hfits.serving worker' fd'
        unfold Server.handlePeerDisconnection
        grind
      · have := hfits.leaving worker'
        unfold Server.handlePeerDisconnection
        grind
  · have := h.reading worker' peer' fd'
    dsimp only [Server.handlePeerDisconnection] at hd ⊢
    grind

theorem handleIncoming (h : Follows handlers s) (hp : Placed handlers s) (hr : Registered s)
    {worker : Nat} {peer : Peer} {fd : Fd} (hd : s.doing worker = .handleIncoming peer fd)
    (length : Nat) : Follows handlers (s.handleIncoming worker peer fd length) := by
  obtain ⟨hw, hconn⟩ := h.reading worker peer fd (.inl hd)
  have ht := hr.serving worker peer fd (.inl hd)
  obtain ⟨session, hof, hfits⟩ := h.sessions peer
  have hno := hfits.serving worker fd (.inr (.inl hd))
  have hcon : session.connected = true := hfits.connected.mpr (by rw [ht]; exact Option.some_ne_none _)
  unfold Server.handleIncoming
  split
  case h_1 hnone =>
    refine h.handlePeerDisconnection hp hr hd ?_
    have hlt : peer < s.next := by
      by_contra hge
      have := (hp.fresh peer (Nat.le_of_not_lt hge)).2
      rw [ht] at this
      cases this
    have := hfits.gone hlt
    grind
  case h_2 owner hc =>
    have howner : owner = peer := by grind
    subst howner
    dsimp only
    split
    case isTrue hunread =>
      split
      case isTrue hended => exact h.handlePeerDisconnection hp hr hd (.inr ⟨hunread, hended⟩)
      case isFalse =>
        refine h.move ⟨rfl, rfl, rfl, rfl, rfl, rfl, rfl, rfl, rfl, rfl⟩ worker .poll
          rfl rfl rfl rfl ?_ ?_ ?_ ?_ <;> grind
    case isFalse hunread =>
      refine ⟨fun peer' => ?_, fun worker' peer' fd' hd' => ?_⟩
      · obtain ⟨session', hof', hfits'⟩ := h.sessions peer'
        by_cases hpeer : owner = peer'
        · subst hpeer
          cases hof'.symm.trans hof
          refine ⟨{ session with
            inputs := session.inputs ++
              [(s.socket owner).unread.take (max 1 (min length Const.MaxBuffer))] },
            ?_, ?_, hfits.connected, hfits.order, fun hs => ?_, hfits.gone, fun _ hs => ?_,
            fun _ _ _ => hno, fun worker' hl => ?_, hfits.removing⟩
          · exact Session.of_call hof rfl (by simp [Session.call, hcon, hno, hunread])
          · simp [hfits.input]
          · exact absurd hs (by simp [hno])
          · exact absurd hs (by simp [hno])
          · have := hfits.leaving worker'
            grind
        · refine ⟨session', ?_, ?_, hfits'.connected, hfits'.order, ?_, hfits'.gone,
            fun worker' hs => ?_, fun worker' fd' hd' => ?_, fun worker' hd' => ?_, hfits'.removing⟩
          · exact Session.of_other hof' fun he => hpeer he
          · have := hfits'.input
            grind
          · have := hfits'.ended
            grind
          · have := hfits'.going worker'
            grind
          · have := hfits'.serving worker' fd'
            grind
          · have := hfits'.leaving worker'
            grind
      · have := h.reading worker' peer' fd'
        grind

theorem startRemoving (h : Follows handlers s) {worker : Nat} {peer : Peer}
    (hout : s.outside worker = true) (hi : s.idle peer = true) :
    Follows handlers { s with removing := Function.update s.removing worker (.removePeer peer) } := by
  unfold Server.outside at hout
  refine ⟨fun peer' => ?_, h.reading⟩
  obtain ⟨session, hof, hfits⟩ := h.sessions peer'
  refine ⟨session, hof, hfits.input, hfits.connected, hfits.order, hfits.ended, hfits.gone,
    fun worker' => ?_, hfits.serving, hfits.leaving, fun worker' => ?_⟩
  · have := hfits.going worker'
    grind
  · have := hfits.removing worker'
    grind

end Follows

/-! ## What one event does to the input of a peer -/

/-- What one event does to the input and the socket of one peer. -/
inductive Observes (s : Server) (event : Event) (peer : Peer) (inputs : List Bytes) :
    List Bytes → Socket → Prop
  | same : Observes s event peer inputs inputs (s.socket peer)
  | arrive (fd : Fd) (bytes : Bytes) : event = .arrive fd bytes → s.conn fd = some peer →
    Observes s event peer inputs inputs
      { s.socket peer with unread := (s.socket peer).unread ++ bytes }
  | finish : Observes s event peer inputs inputs { s.socket peer with ended := true }
  | reset : Observes s event peer inputs inputs { s.socket peer with unread := [], ended := true }
  | recv (bytes : Nat) :
    Observes s event peer inputs (inputs ++ [(s.socket peer).unread.take bytes])
      { s.socket peer with
        taken := (s.socket peer).taken ++ (s.socket peer).unread.take bytes
        unread := (s.socket peer).unread.drop bytes }

variable {handlers : Nat} {s : Server} {event : Event} {peer : Peer} {session session' : Session}

/-- No input is added. -/
theorem Observes.of_calls (hof : Session.of s.calls peer = some session) {calls : List Callback}
    (hcalls : calls = s.calls ∨ ∃ c, calls = s.calls ++ [c] ∧ ∀ peer buffer, c ≠ .onInput peer buffer)
    (hof' : Session.of calls peer = some session') : session'.inputs = session.inputs := by
  rcases hcalls with rfl | ⟨c, rfl, hc⟩
  · cases hof.symm.trans hof'
    rfl
  · rw [Session.of_append, hof, Option.bind_some] at hof'
    split at hof'
    · cases c with
      | onConnection peer => rw [(Session.call_onConnection hof').2]
      | onInput peer buffer => exact absurd rfl (hc peer buffer)
      | onDisconnection peer => rw [Session.call_onDisconnection hof']
    · cases hof'
      rfl

theorem calls_advance (s : Server) (worker : Nat) :
    ((s.advance worker).calls = s.calls ∨ ∃ c, (s.advance worker).calls = s.calls ++ [c] ∧
      ∀ peer buffer, c ≠ .onInput peer buffer) ∧ (s.advance worker).socket = s.socket := by
  unfold Server.advance Server.removePeer Server.handlePeerQueue Server.handlePeer Server.registerFd
  repeat' split
  all_goals first
    | exact ⟨.inl rfl, rfl⟩
    | exact ⟨.inr ⟨_, rfl, by simp⟩, rfl⟩


/-- Neither the calls nor the sockets are concerned. -/
theorem Observes.quiet {s' : Server} (hof : Session.of s.calls peer = some session)
    (hof' : Session.of s'.calls peer = some session')
    (hcalls : s'.calls = s.calls ∨ ∃ c, s'.calls = s.calls ++ [c] ∧
      ∀ peer buffer, c ≠ .onInput peer buffer) (hsocket : s'.socket = s.socket) :
    Observes s event peer session.inputs session'.inputs (s'.socket peer) := by
  rw [Observes.of_calls hof hcalls hof', hsocket]
  exact .same

/-- Something has happened to the socket behind a file descriptor. -/
theorem Observes.happens (fd : Fd) (socket : Socket → Socket)
    (hpeer : s.conn fd = some peer → Observes s event peer session.inputs session.inputs
      (socket (s.socket peer))) (hof : Session.of s.calls peer = some session)
    (hof' : Session.of (s.happens fd socket).calls peer = some session') :
    Observes s event peer session.inputs session'.inputs ((s.happens fd socket).socket peer) := by
  unfold Server.happens at hof' ⊢
  split at hof'
  · exact Observes.quiet hof hof' (.inl rfl) rfl
  case h_2 owner hc =>
    split at hof'
    case isTrue hended =>
      rw [if_pos hended]
      exact Observes.quiet hof hof' (.inl rfl) rfl
    case isFalse hended =>
      rw [if_neg hended]
      rw [Observes.of_calls hof (.inl rfl) hof']
      by_cases howner : peer = owner
      · subst howner
        simpa only [Function.update_self] using hpeer hc
      · simpa only [Function.update_of_ne howner] using Observes.same

theorem Follows.observes (h : Follows handlers s) (hthrown : s.thrown = false)
    (hof : Session.of s.calls peer = some session)
    (hof' : Session.of (s.step handlers event).calls peer = some session') :
    Observes s event peer session.inputs session'.inputs ((s.step handlers event).socket peer) := by
  unfold Server.step at hof' ⊢
  rw [if_neg (by rw [hthrown]; exact Bool.false_ne_true)] at hof' ⊢
  cases event with
  | handleNewConnection fd =>
    have hframe : (s.handleNewConnection handlers fd).calls = s.calls ∧
        (s.handleNewConnection handlers fd).socket = s.socket := by
      unfold Server.handleNewConnection
      split <;> exact ⟨rfl, rfl⟩
    exact Observes.quiet hof hof' (.inl hframe.1) hframe.2
  | handleNewPeer =>
    have hframe : s.handleNewPeer.calls = s.calls ∧ s.handleNewPeer.socket = s.socket := by
      unfold Server.handleNewPeer
      repeat' split
      all_goals exact ⟨rfl, rfl⟩
    exact Observes.quiet hof hof' (.inl hframe.1) hframe.2
  | arrive fd bytes => exact Observes.happens fd _ (.arrive fd bytes rfl) hof hof'
  | finish fd => exact Observes.happens fd _ (fun _ => .finish) hof hof'
  | reset fd => exact Observes.happens fd _ (fun _ => .reset) hof hof'
  | pollQueue worker =>
    dsimp only at hof' ⊢
    refine Observes.quiet hof hof' (.inl ?_) ?_ <;> split <;> rfl
  | poll worker fd =>
    dsimp only at hof' ⊢
    refine Observes.quiet hof hof' (.inl ?_) ?_ <;> split <;> rfl
  | onReady worker =>
    have hframe : (s.onReady worker).calls = s.calls ∧ (s.onReady worker).socket = s.socket := by
      unfold Server.onReady
      repeat' split
      all_goals exact ⟨rfl, rfl⟩
    dsimp only at hof' ⊢
    split at hof'
    case isTrue hpoll =>
      rw [if_pos hpoll]
      exact Observes.quiet hof hof' (.inl hframe.1) hframe.2
    case isFalse hno =>
      rw [if_neg hno]
      exact Observes.quiet hof hof' (.inl rfl) rfl
  | recv worker length =>
    dsimp only at hof' ⊢
    split
    case h_1 serving fd hrem hd =>
      rw [hrem, hd] at hof'
      dsimp only at hof'
      obtain ⟨-, hconn⟩ := h.reading worker serving fd (.inl hd)
      unfold Server.handleIncoming Server.handlePeerDisconnection at hof' ⊢
      split at hof'
      · exact Observes.quiet hof hof' (.inr ⟨_, rfl, by simp⟩) rfl
      case h_2 owner hc =>
        have howner : owner = serving := by grind
        subst howner
        dsimp only at hof' ⊢
        split at hof'
        case isTrue hunread =>
          rw [if_pos hunread]
          split at hof'
          case isTrue hended =>
            rw [if_pos hended]
            exact Observes.quiet hof hof' (.inr ⟨_, rfl, by simp⟩) rfl
          case isFalse hended =>
            rw [if_neg hended]
            exact Observes.quiet hof hof' (.inl rfl) rfl
        case isFalse hunread =>
          rw [if_neg hunread]
          rw [Session.of_append, hof, Option.bind_some] at hof'
          by_cases hpeer : owner = peer
          · subst hpeer
            obtain ⟨-, -, rfl⟩ := Session.call_onInput ((if_pos rfl).symm.trans hof')
            simpa only [Function.update_self] using Observes.recv _
          · cases (if_neg hpeer).symm.trans hof'
            simpa only [Function.update_of_ne (Ne.symm hpeer)] using Observes.same
    case h_2 hno =>
      rw [Observes.of_calls hof (.inl ?_) hof']
      · exact .same
      · split
        case h_1 peer fd hrem hd => exact absurd hd (hno peer fd hrem)
        case h_2 => rfl
  | advance worker =>
    obtain ⟨hcalls, hsocket⟩ := calls_advance s worker
    exact Observes.quiet hof hof' hcalls hsocket
  | checkIdlePeers worker fd =>
    dsimp only at hof' ⊢
    refine Observes.quiet hof hof' (.inl ?_) ?_ <;> repeat' split
    all_goals rfl
  | removePeer removed =>
    dsimp only at hof' ⊢
    refine Observes.quiet hof hof' (.inl ?_) ?_ <;> repeat' split
    all_goals rfl
  | handleWriteQueue worker write =>
    dsimp only [Server.handleWriteQueue] at hof' ⊢
    refine Observes.quiet hof hof' (.inl ?_) ?_ <;> repeat' split
    all_goals rfl
  | asyncWriteImpl worker fd sent =>
    dsimp only [Server.asyncWriteImpl] at hof' ⊢
    refine Observes.quiet hof hof' (.inl ?_) ?_ <;> repeat' split
    all_goals rfl

end Server

end Pistache.Tcp
