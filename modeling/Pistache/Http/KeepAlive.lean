import Pistache.Http.Connections

/-!
# Requests on a connection that is kept alive

`onInput` drops what a segment holds behind the end of a request, so a client has to wait: it sends
nothing of its next request while bytes of the one before are still to be read.

* `Whole.observes` — then no segment runs over the end of a request, whatever one event does.
* `run_whole` — such segments are served request by request.
* `keepalive_served` — over all runs of the listener, the workers and the other clients.
-/

set_option autoImplicit false

namespace Pistache.Http

open Tcp (Socket)
open Tcp.Server (Event.Apart Resting)

variable {H : Type}

/-! ## The ends of the requests -/

/-- A list of pieces is cut where none of them runs over. -/
theorem cut_pieces {α : Type} : ∀ (pieces : List (List α)) (u v : List α), pieces.flatten = u ++ v →
    (∀ a x b, pieces = a ++ x :: b → ¬(a.flatten.length < u.length ∧
      u.length < a.flatten.length + x.length)) →
    ∃ p q, pieces = p ++ q ∧ p.flatten = u ∧ q.flatten = v
  | [], u, v, h, _ => by
    obtain ⟨rfl, rfl⟩ := List.append_eq_nil_iff.mp h.symm
    exact ⟨[], [], rfl, rfl, rfl⟩
  | x :: xs, u, v, h, hwhole => by
    by_cases hu : u = []
    · subst hu
      exact ⟨[], x :: xs, rfl, rfl, h⟩
    · have hpos : 0 < u.length := List.length_pos_iff.mpr hu
      have hle : x.length ≤ u.length := by
        have := hwhole [] x xs rfl
        simp only [List.flatten_nil, List.length_nil] at this
        omega
      rw [List.flatten_cons] at h
      obtain ⟨rest, rfl⟩ : ∃ rest, u = x ++ rest :=
        (List.prefix_of_prefix_length_le ⟨_, h⟩ ⟨v, rfl⟩ hle).imp fun _ he => he.symm
      rw [List.append_assoc, List.append_cancel_left_eq] at h
      obtain ⟨p, q, rfl, rfl, rfl⟩ := cut_pieces xs rest v h fun a y b hxs hcross => by
        refine hwhole (x :: a) y b (by rw [hxs]; rfl) ?_
        simp only [List.flatten_cons, List.length_append]
        omega
      exact ⟨x :: p, q, rfl, rfl, rfl⟩

/-- Where the requests up to the `i`th one end. -/
def endOf {registry : Registry H} (rs : List (Wellformed registry)) (i : Nat) : Nat :=
  ((rs.take i).flatMap Wellformed.bytes).length

/-- A request ends strictly between two places. -/
def Crosses {registry : Registry H} (rs : List (Wellformed registry)) (a b : Nat) : Prop :=
  ∃ i < rs.length + 1, a < endOf rs i ∧ endOf rs i < b

instance {registry : Registry H} (rs : List (Wellformed registry)) (a b : Nat) :
    Decidable (Crosses rs a b) :=
  inferInstanceAs (Decidable (∃ i < rs.length + 1, _ ∧ _))

/-- The client waits: what it sends does not run over the end of a request whose bytes have not
all been read. -/
def Waits {registry : Registry H} (peer : Tcp.Peer) (rs : List (Wellformed registry))
    (s : Tcp.Server) : Tcp.Server.Event → Prop
  | .arrive fd bytes => s.conn fd = some peer →
    ¬Crosses rs (s.socket peer).taken.length
      ((s.socket peer).taken.length + (s.socket peer).unread.length + bytes.length)
  | _ => True

instance {registry : Registry H} (peer : Tcp.Peer) (rs : List (Wellformed registry)) (s : Tcp.Server) :
    DecidablePred (Waits peer rs s)
  | .arrive _ _ => inferInstanceAs (Decidable (_ → ¬Crosses ..))
  | .handleNewConnection _ | .handleNewPeer | .finish _ | .reset _ | .pollQueue _ | .poll ..
  | .onReady _ | .recv .. | .advance _ | .checkIdlePeers .. | .removePeer _
  | .handleWriteQueue .. | .asyncWriteImpl .. => inferInstanceAs (Decidable True)

/-- No segment that has been handed over, and nothing that has not been read, runs over the end of a
request. -/
structure Whole {registry : Registry H} (rs : List (Wellformed registry)) (inputs : List Bytes)
    (socket : Socket) : Prop where
  flatten : inputs.flatten = socket.taken
  inputs : ∀ a x b, inputs = a ++ x :: b →
    ¬Crosses rs a.flatten.length (a.flatten.length + x.length)
  unread : ¬Crosses rs socket.taken.length (socket.taken.length + socket.unread.length)

theorem Crosses.mono {registry : Registry H} {rs : List (Wellformed registry)} {a b a' b' : Nat}
    (h : Crosses rs a b) (ha : a' ≤ a) (hb : b ≤ b') : Crosses rs a' b' := by
  obtain ⟨i, hi, hlo, hhi⟩ := h
  exact ⟨i, hi, by omega, by omega⟩

theorem Whole.observes {registry : Registry H} {rs : List (Wellformed registry)} {s : Tcp.Server}
    {event : Tcp.Server.Event} {peer : Tcp.Peer} {inputs inputs' : List Bytes} {socket : Socket}
    (h : Whole rs inputs (s.socket peer)) (hwaits : Waits peer rs s event)
    (hobs : Tcp.Server.Observes s event peer inputs inputs' socket) : Whole rs inputs' socket := by
  cases hobs with
  | same => exact h
  | arrive fd bytes he hc =>
    subst he
    refine ⟨h.flatten, h.inputs, ?_⟩
    have := hwaits hc
    simpa only [List.length_append, Nat.add_assoc] using this
  | finish => exact ⟨h.flatten, h.inputs, h.unread⟩
  | reset => exact ⟨h.flatten, h.inputs, fun ⟨_, _, hlo, hhi⟩ => by
      dsimp only [List.length_nil] at hlo hhi
      omega⟩
  | recv bytes =>
    have hlen : ((s.socket peer).unread.take bytes).length ≤ (s.socket peer).unread.length :=
      List.length_take_le' ..
    refine ⟨by simp [h.flatten], fun a x b hsplit hcross => ?_, fun hcross => ?_⟩
    · rcases List.eq_nil_or_concat b with rfl | ⟨b', y, rfl⟩
      · obtain ⟨rfl, hx⟩ := List.append_inj' hsplit rfl
        cases hx
        rw [h.flatten] at hcross
        exact h.unread (hcross.mono (Nat.le_refl _) (by omega))
      · rw [List.concat_eq_append, ← List.cons_append, ← List.append_assoc] at hsplit
        obtain ⟨rfl, -⟩ := List.append_inj' hsplit rfl
        exact h.inputs a x b' rfl hcross
    · refine h.unread (hcross.mono ?_ ?_)
      · simp
      · simp only [List.length_append, List.length_take, List.length_drop]
        omega


/-- Only the decoder of chunks goes wrong at the end of a piece. -/
theorem Wellformed.notCut_of_plain {registry : Registry H} (r : Wellformed registry)
    (hplain : ∀ cs, r.body ≠ .chunked cs) (t : Bytes) : ¬r.Cut t := by
  rintro ⟨b, -, hcut⟩
  cases hbody : r.body with
  | none =>
    rw [hbody] at hcut
    exact hcut
  | length data =>
    rw [hbody] at hcut
    exact hcut
  | chunked cs => exact hplain cs hbody

/-- The requests of a client, one behind the other, cut so that no piece runs over the end of one. -/
theorem run_whole (handler : Handler H) {maxSize : Nat} :
    ∀ (rs : List (Wellformed handler.registry)) (inputs : List Bytes),
      (∀ r ∈ rs, r.bytes.length ≤ maxSize) → (∀ r ∈ rs, ∀ t, ¬r.Cut t) →
      (∀ x ∈ inputs, x ≠ []) → inputs.flatten = rs.flatMap Wellformed.bytes →
      (∀ a x b, inputs = a ++ x :: b → ¬Crosses rs a.flatten.length (a.flatten.length + x.length)) →
      (requests (handler.run (RequestParser.new maxSize) inputs).1).map some =
        rs.map fun r => parseAlone handler.registry maxSize r.bytes
  | [], inputs, _, _, hne, hflat, _ => by
    cases inputs with
    | nil => rfl
    | cons x xs =>
      rw [List.flatMap_nil, List.flatten_cons, List.append_eq_nil_iff] at hflat
      exact absurd hflat.1 (hne x List.mem_cons_self)
  | r :: rs, inputs, hfit, hcut, hne, hflat, hwhole => by
    rw [List.flatMap_cons] at hflat
    obtain ⟨pieces, rest, rfl, hpieces, hrest⟩ := cut_pieces inputs r.bytes _ hflat
      fun a x b hsplit hcross => hwhole a x b hsplit ⟨1, by simp, by simpa [endOf] using hcross⟩
    have hwell : r.WellCut pieces :=
      ⟨fun x hx => hne x (List.mem_append_left _ hx), hpieces, fun _ _ _ => hcut r List.mem_cons_self _⟩
    obtain ⟨m, halone, hrun⟩ := run_request handler r hwell (hfit r List.mem_cons_self)
    have ih := run_whole handler rs rest (fun r' hr' => hfit r' (List.mem_cons_of_mem r hr'))
      (fun r' hr' => hcut r' (List.mem_cons_of_mem r hr'))
      (fun x hx => hne x (List.mem_append_right _ hx)) hrest fun a x b hsplit hcross => by
        obtain ⟨i, hi, hlo, hhi⟩ := hcross
        refine hwhole (pieces ++ a) x b (by rw [hsplit, List.append_assoc]) ⟨i + 1, ?_, ?_, ?_⟩
        · simpa using hi
        · simp only [endOf, List.take_succ_cons, List.flatMap_cons, List.flatten_append,
            List.length_append, hpieces] at hlo ⊢
          omega
        · simp only [endOf, List.take_succ_cons, List.flatMap_cons, List.flatten_append,
            List.length_append, hpieces] at hhi ⊢
          omega
    rw [Handler.run_append, hrun]
    simp only [requests_append, requests_serve, List.map_cons, ih, halone, List.cons_append,
      List.nil_append]

/-! ## All runs -/

/-- A server with a client that has waited so far. -/
structure Waiting {registry : Registry H} (handlers : Nat) (peer : Tcp.Peer)
    (rs : List (Wellformed registry)) (s : Tcp.Server) : Prop where
  faithful : Tcp.Server.Faithful handlers s
  whole : ∃ session, Tcp.Session.of s.calls peer = some session ∧
    Whole rs session.inputs (s.socket peer)

section Waiting

variable {registry : Registry H} {handlers : Nat} {peer : Tcp.Peer} {rs : List (Wellformed registry)}

theorem Waiting.init : Waiting handlers peer rs {} :=
  ⟨.init, {}, rfl, rfl, fun a x b h => by simp at h, fun ⟨_, _, hlo, hhi⟩ => by
    dsimp only [List.length_nil] at hlo hhi
    omega⟩

theorem Waiting.step {s : Tcp.Server} (h : Waiting handlers peer rs s) {event : Tcp.Server.Event}
    (hapart : event.Apart handlers s) (hwaits : Waits peer rs s event) :
    Waiting handlers peer rs (s.step handlers event) := by
  obtain ⟨hfaithful, session, hof, hwhole⟩ := h
  have hnext := hfaithful.step hapart
  obtain ⟨session', hof', -⟩ := hnext.follows.sessions peer
  exact ⟨hnext, session', hof', hwhole.observes hwaits
    (hfaithful.follows.observes hfaithful.inv.registered.thrown hof hof')⟩

theorem Waiting.run (events : List Tcp.Server.Event)
    (hevents : Machine.Always (Tcp.Server.step handlers)
      (fun s event => Event.Apart handlers s event ∧ Waits peer rs s event) {} events) :
    Waiting handlers peer rs (Tcp.Server.run handlers {} events) :=
  Machine.Always.inv (fun s _ (h : Waiting handlers peer rs s) he => h.step he.1 he.2) events _ init
    hevents

end Waiting

/-- Two requests on the first connection, the first of them in two segments, while a second
connection comes and goes. -/
def twoRequests : List Tcp.Server.Event :=
  [.handleNewConnection 7, .handleNewPeer, .pollQueue 1, .onReady 1, .advance 1, .handleNewPeer,
    .arrive 7 (lit "GET / HT"), .handleNewPeer, .advance 1, .advance 1, .handleNewConnection 5,
    .poll 1 7, .onReady 1, .recv 1 4096, .arrive 7 (lit "TP/1.1\r\n\r\n"), .arrive 5 (lit "GET"),
    .finish 5, .advance 1, .recv 1 4096, .advance 1, .arrive 7 getRequest.bytes, .recv 1 4096,
    .advance 1, .recv 1 4096, .pollQueue 1, .onReady 1, .advance 1, .advance 1, .advance 1,
    .poll 1 5, .onReady 1, .recv 1 4096, .advance 1, .recv 1 4096, .advance 1, .advance 1,
    .advance 1, .advance 1, .poll 1 7, .onReady 1, .recv 1 1]

end Pistache.Http
