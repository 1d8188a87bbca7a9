import Pistache.Experimental.Stranded

/-!
# Connections on their way

Where no exception is thrown and no attempt to connect is rejected, somebody is to come to a
connection that is wanted, and to a socket that is open.

* `settling` — none of this happens, and nothing is lost where the remote closes a connection.
* `State.Awaited`, `State.Watched` — who is to come.
* `State.Attached`, `attached_step` — in such runs, a request that waits for a connection has an
  attempt to connect that is awaited, and a socket is watched.
-/

set_option autoImplicit false

namespace Pistache.Experimental

open Stacks

variable {T : Type} [DecidableEq T]

/-! ## Settling runs -/

/-- The frame leads to an end of the request of the connection, where the socket is gone. -/
def Frame.sends (c : ConnId) : Frame → Bool
  | .asyncSendRequest c' _ _ | .asyncSendRequestImpl c' _ _ | .handleError c' _ => c' = c
  | _ => false

/-- The request of the connection is on its way to the socket. -/
def State.Underway (s : State T) (c : ConnId) : Prop :=
  Occurs (fun f => f.sends c) s.stack ∨ ∃ w, ∃ e ∈ (s.transport w).requestsQueue, e.conn = c

instance [Fintype T] (s : State T) (c : ConnId) : Decidable (s.Underway c) :=
  inferInstanceAs (Decidable ((∃ t, ∃ f ∈ s.stack t, f.sends c) ∨ _))

/-- The request of the connection, if it is pending, ends without the socket. -/
def State.Spared (s : State T) (c : ConnId) : Prop :=
  ∀ e ∈ (s.conn c).requestEntry, s.outcomes e.request.id = [] → e.timer ≠ none ∨ s.Underway c

instance [Fintype T] (s : State T) (c : ConnId) : Decidable (s.Spared c) :=
  inferInstanceAs (Decidable (∀ e ∈ (s.conn c).requestEntry, _))

/-- The run is orderly, no exception is thrown, no attempt to connect is rejected, and the remote
closes no connection with a request that nothing else ends. -/
def Frame.settling [Fintype T] (cfg : Config T) (s : State T) (t : T) (input : Input)
    (fs : List Frame) : Frame → Bool
  | .throwing _ => false
  | .handleConnectionQueue =>
    match (s.transport t).connectionsQueue with
    | [] => true
    | c :: _ => (s.conn c).socket ≠ none ∧ ((s.conn c).socket = some false → input ≠ .connect false)
  | .onReady (.socket c .writable :: _) => (s.conn c).socket ≠ none
  | .onReady (.socket _ .hangup :: _) => false
  | .remoteClosed c => (s.conn c).attempt ≠ .pending ∧ s.Spared c
  | f => f.orderly cfg s input fs

def settling [Fintype T] (cfg : Config T) (s : State T) : Event T → Bool
  | .tick _ => true
  | .thread t input =>
    match s.stack t with
    | [] => true
    | f :: fs => f.settling cfg s t input fs

omit [DecidableEq T] in
theorem Frame.settling_orderly [Fintype T] {cfg : Config T} {s : State T} {t : T} {input : Input}
    {fs : List Frame} {f : Frame} (h : f.settling cfg s t input fs) : f.orderly cfg s input fs := by
  unfold Frame.settling at h
  split at h <;> first | rfl | cases h | exact h

/-! ## Who is to come -/

/-- The frame leads to the requests that wait for the connection. -/
def Frame.connects (c : ConnId) : Frame → Bool
  | .connect _ c' | .attach c' | .connected c' | .processRequests c' => c' = c
  | _ => false

/-- The batch holds the end of an attempt to connect. -/
def Frame.reports (c : ConnId) : Frame → Bool
  | .onReady events => .socket c .writable ∈ events ∨ .socket c .hangup ∈ events
  | _ => false

/-- The frame is to watch the socket for its input. -/
def Frame.registers (c : ConnId) : Frame → Bool
  | .modifyFd c' | .insertConnection c' => c' = c
  | _ => false

/-- The transport is yet to connect the connection. -/
def State.Asked (s : State T) (c : ConnId) : Prop := ∃ w, c ∈ (s.transport w).connectionsQueue

/-- Somebody waits for the end of the attempt to connect. -/
def State.Wanted (s : State T) (c : ConnId) : Prop :=
  (s.conn c).attempt = .pending ∧ ((s.conn c).attached ∨ Occurs (· = .attach c) s.stack)

/-- The attempt to connect is to end. -/
def State.Awaited (s : State T) (c : ConnId) : Prop :=
  s.Asked c ∨ (s.conn c).watch = .write ∨ Occurs (fun f => f.reports c) s.stack

/-- The socket is watched, or is to be. -/
def State.Watched (s : State T) (c : ConnId) : Prop :=
  s.Asked c ∨ Occurs (· = .insertConnection c) s.stack ∨
    ((s.conn c).listed ∧ ((s.conn c).watch ≠ .none ∨ Occurs (fun f => f.reports c) s.stack ∨
      Occurs (· = .modifyFd c) s.stack))

/-- The handlers of the transport stand at the bottom. -/
@[mk_iff]
structure Bottom (f : Frame) (fs : List Frame) : Prop where
  onReady : ∀ events, f = .onReady events → fs = []
  queue : f = .handleConnectionQueue → ∃ events, fs = [.onReady events]

/-- Somebody is to come to what waits. -/
structure State.Tended (s : State T) : Prop where
  bottom : ∀ t, Tower Bottom (s.stack t)
  attempt : ∀ c, (s.conn c).attempt ≠ .rejected
  requests : ∀ c, (s.conn c).requestsQueue ≠ [] →
    Occurs (fun f => f.connects c) s.stack ∨
      ((s.conn c).attached ∧ (s.conn c).attempt = .pending)
  wanted : ∀ c, s.Wanted c → s.Awaited c
  registers : ∀ c, s.Wanted c → Occurs (fun f => f.registers c) s.stack → s.Asked c
  watched : ∀ c, (s.conn c).socket ≠ none → s.Watched c

/-! ## Steps -/

section

variable {cfg : Config T} {s s' : State T} {t : T} {fs : List Frame} {input : Input} {f : Frame}

/-- What stands below the frame on top stays, but for exceptions. -/
theorem Move.below (hm : Move cfg s t fs input f s') (hstack : s.stack t = f :: fs)
    (hf : ∀ what, f ≠ .throwing what) {g : Frame} (hg : g ∈ fs) : g ∈ s'.stack t := by
  cases hm with
  | wait | abort => exact hstack ▸ List.mem_cons_of_mem f hg
  | thrown | caught | catch_ | unwind => exact absurd rfl (hf _)
  | connect =>
    simp only [State.goto, Function.update_self]
    split <;> simp [hg]
  | _ => simp [hg]

theorem move_occurs (hm : Move cfg s t fs input f s') (hstack : s.stack t = f :: fs)
    (hf : ∀ what, f ≠ .throwing what) {P : Frame → Prop} (h : Occurs P s.stack) :
    P f ∨ Occurs P s'.stack := by
  by_cases htop : P f
  · exact .inl htop
  · right
    rw [hm.stack]
    refine h.update fun g hg hP => ?_
    rw [hstack] at hg
    rcases List.mem_cons.mp hg with rfl | hg
    · exact absurd hP htop
    · exact ⟨g, hm.below hstack hf hg, hP⟩

/-- A transport takes a connection from its queue. -/
theorem move_asked (hm : Move cfg s t fs input f s') {c : ConnId} (h : s.Asked c) :
    s'.Asked c ∨ (f = .handleConnectionQueue ∧
      ∃ queue, (s.transport t).connectionsQueue = c :: queue) := by
  obtain ⟨w, hw⟩ := h
  by_cases hkept : c ∈ (s'.transport w).connectionsQueue
  · exact .inl ⟨w, hkept⟩
  · right
    cases hm with
    | wait | abort | plain | unwind => exact absurd hw hkept
    | _ =>
      simp [Function.update_apply] at hkept
      grind -ring -linarith

theorem move_bottom (hstack : s.stack t = f :: fs) (hm : Move cfg s t fs input f s')
    (h : Tower Bottom (f :: fs)) : Tower Bottom (s'.stack t) := by
  obtain ⟨⟨honReady, hqueue⟩, hrest⟩ := h
  cases hm with
  | wait | abort =>
    simp only [State.abort, hstack]
    exact ⟨⟨honReady, hqueue⟩, hrest⟩
  | plain hp => cases hp <;> simp [Tower, bottom_iff, hrest] <;> grind -ring -linarith
  | connect | reject | timeOut | resolve | ready_writable | connection_tls =>
    simp only [State.goto, State.settle, State.setConn, State.setTransport, State.releaseTimer,
      State.continuation, Function.update_self]
    split <;> simp [Tower, bottom_iff, hrest] <;> grind -ring -linarith
  | connection_throws _ _ hgs =>
    rcases hgs with rfl | rfl <;> simp [Tower, bottom_iff, hrest] <;> grind -ring -linarith
  | caught hfs | catch_ hfs | unwind hfs =>
    subst hfs
    simp [Tower, bottom_iff] at hrest ⊢
    grind -ring -linarith
  | _ =>
    simp [Tower, bottom_iff, hrest]
    try grind -ring -linarith

/-- No attempt comes to be rejected. -/
theorem move_attempt [Fintype T] (hm : Move cfg s t fs input f s')
    (hsettling : f.settling cfg s t input fs) (h : ∀ c, (s.conn c).attempt ≠ .rejected)
    (c : ConnId) : (s'.conn c).attempt ≠ .rejected := by
  have hc := h c
  cases hm with
  | wait | abort | plain | unwind => exact hc
  | connection_refused hqueue hpending hrefused =>
    simp [Frame.settling, hqueue] at hsettling
    grind -ring -linarith
  | ready_refused hlisted hpending hready =>
    rcases hready with rfl | ⟨rfl, hsocket⟩ <;> simp_all [Frame.settling]
  | _ =>
    simp [Function.update_apply]
    grind -ring -linarith

/-- Where a connection is yet to be connected, the end of the attempt leads to it. -/
theorem move_pending [Fintype T] (hm : Move cfg s t fs input f s')
    (hsettling : f.settling cfg s t input fs) {c : ConnId} (hattached : (s.conn c).attached)
    (hpending : (s.conn c).attempt = .pending) :
    ((s'.conn c).attached ∧ (s'.conn c).attempt = .pending) ∨
      ∃ g ∈ s'.stack t, g.connects c := by
  cases hm with
  | wait | abort | plain | unwind => exact .inl ⟨hattached, hpending⟩
  | connection_refused hqueue _ hrefused =>
    simp [Frame.settling, hqueue] at hsettling
    grind -ring -linarith
  | ready_refused hlisted _ hready =>
    rcases hready with rfl | ⟨rfl, hsocket⟩ <;> simp_all [Frame.settling]
  | @connect r c' =>
    by_cases hc : c = c'
    · exact .inr ⟨.attach c, by simp [hc], by simp [Frame.connects]⟩
    · exact .inl ⟨by simpa [hc] using hattached, by simpa [hc] using hpending⟩
  | @ready_writable c' | @connection_tls c' =>
    by_cases hc : c = c'
    · subst hc
      exact .inr ⟨.connected c, by simp [hattached], by simp [Frame.connects]⟩
    · exact .inl ⟨by simpa [hc] using hattached, by simpa [hc] using hpending⟩
  | _ =>
    simp [Function.update_apply]
    grind -ring -linarith

/-- The frames that lead to the requests go on, until there are none. -/
theorem move_connects (hm : Move cfg s t fs input f s') (hstack : s.stack t = f :: fs)
    (hthrows : ∀ what, .throwing what ∉ s'.stack t) (hattempt : ∀ c, (s.conn c).attempt ≠ .rejected)
    {c : ConnId} (hf : f.connects c) (hrequests : (s'.conn c).requestsQueue ≠ []) :
    (∃ g ∈ s'.stack t, g.connects c) ∨ ((s'.conn c).attached ∧ (s'.conn c).attempt = .pending) := by
  cases hm with
  | wait | abort => exact .inl ⟨f, hstack ▸ List.mem_cons_self, hf⟩
  | plain hp =>
    cases hp with
    | connect_fails => exact absurd (by simp) (hthrows "Failed to connect")
    | attach_resolved => exact .inl ⟨.connected c, by simp_all [Frame.connects], by simp [Frame.connects]⟩
    | attach_rejected h => exact absurd h (hattempt _)
    | requests_done h => simp_all [Frame.connects]
    | _ => cases hf
  | connect | attach | connected | requests_next =>
    simp [Frame.connects] at hf
    subst hf
    simp_all [Frame.connects]
  | reject_throws h => rcases h with ⟨error, rfl⟩ | rfl <;> cases hf
  | _ => cases hf

theorem move_waits [Fintype T] (hm : Move cfg s t fs input f s') (hstack : s.stack t = f :: fs)
    (hsettling : f.settling cfg s t input fs) (hthrows : ∀ what, .throwing what ∉ s'.stack t)
    (hattempt : ∀ c, (s.conn c).attempt ≠ .rejected)
    (h : ∀ c, (s.conn c).requestsQueue ≠ [] → Occurs (fun f => f.connects c) s.stack ∨
      ((s.conn c).attached ∧ (s.conn c).attempt = .pending))
    (c : ConnId) (hrequests : (s'.conn c).requestsQueue ≠ []) :
    Occurs (fun f => f.connects c) s'.stack ∨
      ((s'.conn c).attached ∧ (s'.conn c).attempt = .pending) := by
  have hf : ∀ what, f ≠ .throwing what := by
    rintro what rfl
    cases hsettling
  by_cases hold : (s.conn c).requestsQueue = []
  · obtain ⟨r, hr⟩ := List.exists_mem_of_ne_nil _ hrequests
    rcases move_requests hm hr with hmem | rfl
    · rw [hold] at hmem
      cases hmem
    · cases hm with
      | wait | abort => exact absurd hold hrequests
      | plain hp => cases hp
      | found_connected => simp [hold] at hrequests
      | found_closed => exact .inl ⟨t, .connect r c, by simp, by simp [Frame.connects]⟩
      | reject_throws h => rcases h with ⟨error, h⟩ | h <;> cases h
  · rcases h c hold with hframe | ⟨hattached, hpending⟩
    · rcases move_occurs hm hstack hf hframe with htop | hkept
      · rcases move_connects hm hstack hthrows hattempt htop hrequests with ⟨g, hg⟩ | hwaits
        · exact .inl ⟨t, g, hg⟩
        · exact .inr hwaits
      · exact .inl hkept
    · rcases move_pending hm hsettling hattached hpending with hkept | ⟨g, hg⟩
      · exact .inr hkept
      · exact .inl ⟨t, g, hg⟩

/-- What becomes of the connection that a transport takes from its queue. -/
theorem move_taken [Fintype T] (hm : Move cfg s t fs input .handleConnectionQueue s')
    (hsettling : Frame.handleConnectionQueue.settling cfg s t input fs)
    (hthrows : ∀ what, .throwing what ∉ s'.stack t) {c : ConnId} {queue : List ConnId}
    (hqueue : (s.transport t).connectionsQueue = c :: queue) :
    s'.Asked c ∨ ((s'.conn c).watch = .write ∧ (s'.conn c).listed) ∨
      ((s'.conn c).attempt = .resolved ∧ .insertConnection c ∈ s'.stack t) := by
  cases hm with
  | wait | abort => exact .inl ⟨t, hqueue ▸ List.mem_cons_self⟩
  | plain hp =>
    cases hp with
    | connections_done h =>
      rw [hqueue] at h
      cases h
  | connection_plain h =>
    cases hqueue.symm.trans h
    exact .inr (.inl ⟨by simp, by simp⟩)
  | connection_tls h =>
    cases hqueue.symm.trans h
    exact .inr (.inr ⟨by simp, by simp⟩)
  | connection_refused h _ hrefused =>
    simp [Frame.settling, h] at hsettling
    grind -ring -linarith
  | @connection_throws _ _ _ _ what => exact absurd (by simp) (hthrows what)
  | reject_throws h => rcases h with ⟨error, h⟩ | h <;> cases h

/-- What becomes of the end of an attempt in a batch. -/
theorem move_reports [Fintype T] (hm : Move cfg s t fs input f s') (hstack : s.stack t = f :: fs)
    (hsettling : f.settling cfg s t input fs) (hthrows : ∀ what, .throwing what ∉ s'.stack t)
    {c : ConnId} (hf : f.reports c) : (∃ g ∈ s'.stack t, g.reports c) ∨
      ((s'.conn c).attempt = .resolved ∧ .modifyFd c ∈ s'.stack t) := by
  cases hm with
  | wait | abort => exact .inl ⟨f, hstack ▸ List.mem_cons_self, hf⟩
  | plain hp =>
    cases hp with
    | ready_connections | ready_requests | ready_readable | ready_unlisted | ready_untimed =>
      left
      simp_all [Frame.reports]
    | @ready_throws _ _ _ what => exact absurd (by simp) (hthrows what)
    | @ready_again _ _ what => exact absurd (by simp) (hthrows what)
    | _ => cases hf
  | ready_done => simp [Frame.reports] at hf
  | ready_timer =>
    left
    simp_all [Frame.reports]
  | @ready_writable c' events =>
    by_cases hc : c = c'
    · exact .inr ⟨by simp [hc], by simp [hc]⟩
    · exact .inl ⟨.onReady events, by simp, by simpa [Frame.reports, hc] using hf⟩
  | ready_refused hlisted hpending hready =>
    rcases hready with rfl | ⟨rfl, hsocket⟩ <;> simp_all [Frame.settling]
  | reject_throws h => rcases h with ⟨error, rfl⟩ | rfl <;> cases hf
  | _ => cases hf

/-- Where an attempt comes to be wanted. -/
theorem move_wanted (hm : Move cfg s t fs input f s') (hstack : s.stack t = f :: fs) {c : ConnId}
    (h : s'.Wanted c) : s.Wanted c ∨ s'.Asked c := by
  by_cases hasked : s'.Asked c
  · exact .inr hasked
  left
  obtain ⟨hpending, hwanted⟩ := h
  refine ⟨?_, ?_⟩
  · cases hm with
    | wait | abort | plain | unwind => exact hpending
    | _ =>
      simp [Function.update_apply, State.Asked] at hpending hasked
      grind -ring -linarith
  · rcases hwanted with hattached | ⟨u, g, hg, rfl⟩
    · by_cases hold : (s.conn c).attached
      · exact .inl hold
      · right
        refine ⟨t, .attach c, ?_, rfl⟩
        rw [hstack]
        cases hm with
        | wait | abort | plain | unwind => exact absurd hattached hold
        | _ =>
          simp [Function.update_apply] at hattached
          grind -ring -linarith
    · by_cases hu : u = t
      · subst hu
        right
        refine ⟨u, .attach c, ?_, rfl⟩
        rw [hstack]
        cases hm with
        | wait | abort => exact hstack ▸ hg
        | plain hp => cases hp <;> simp at hg <;> grind -ring -linarith
        | _ =>
          simp [Function.update_apply, State.Asked] at hg hasked <;> grind -ring -linarith [State.continuation]
      · rw [hm.stack, Function.update_of_ne hu] at hg
        exact .inr ⟨u, .attach c, hg, rfl⟩

/-- Where a socket comes to be watched for its input. -/
theorem move_registers (hm : Move cfg s t fs input f s') (hstack : s.stack t = f :: fs)
    (hthrows : ∀ what, .throwing what ∉ s'.stack t) {c : ConnId}
    (h : Occurs (fun f => f.registers c) s'.stack) :
    Occurs (fun f => f.registers c) s.stack ∨ (s'.conn c).attempt = .resolved := by
  obtain ⟨u, g, hg, hregisters⟩ := h
  by_cases hu : u = t
  · subst hu
    suffices hold : g ∈ s.stack u ∨ (s'.conn c).attempt = .resolved by
      rcases hold with hold | hresolved
      · exact .inl ⟨u, g, hold, hregisters⟩
      · exact .inr hresolved
    rw [hstack]
    cases hm with
    | wait | abort => exact .inl (hstack ▸ hg)
    | plain hp =>
      cases hp <;> simp at hg hthrows <;> grind -ring -linarith [Frame.registers]
    | @ready_writable c' | @connection_tls c' =>
      by_cases hc : c = c'
      · exact .inr (by simp [hc])
      · left
        simp at hg
        grind -ring -linarith [Frame.registers]
    | @connection_throws _ _ _ _ what => exact absurd (by simp) (hthrows what)
    | connect =>
      simp only [State.goto, Function.update_self] at hg
      split at hg <;> simp at hg <;> grind -ring -linarith [Frame.registers]
    | _ => simp at hg ⊢ <;> grind -ring -linarith [Frame.registers, State.continuation]
  · rw [hm.stack, Function.update_of_ne hu] at hg
    exact .inl ⟨u, g, hg, hregisters⟩

omit [DecidableEq T] in
/-- While a connection is in the queue of its transport, the transport stands at the queue with
nothing below it that has to do with a socket. -/
theorem State.Owned.not_registers (howned : s.Owned)
    (hstack : s.stack t = .handleConnectionQueue :: fs) (hbottom : Tower Bottom (s.stack t))
    {c : ConnId} {queue : List ConnId} (hqueue : (s.transport t).connectionsQueue = c :: queue) :
    ¬ Occurs (fun f => f.registers c) s.stack := by
  rintro ⟨u, g, hg, hregisters⟩
  have hhere : c ∈ g.here := by
    cases g <;> simp [Frame.registers] at hregisters <;> simp [Frame.here, hregisters]
  have hu : u = t := Option.some.inj
    ((howned.frame u g c hg hhere).symm.trans (howned.connections t c (hqueue ▸ List.mem_cons_self)))
  subst hu
  rw [hstack] at hbottom hg
  obtain ⟨events, rfl⟩ := hbottom.1.queue rfl
  simp at hg
  rcases hg with rfl | rfl <;> cases hregisters

theorem move_watch (hm : Move cfg s t fs input f s') (hthrows : ∀ what, .throwing what ∉ s'.stack t)
    {c : ConnId} (hregisters : f.registers c = false) :
    ((s'.conn c).watch = (s.conn c).watch ∨ (s'.conn c).watch = .write) ∨
      (f = .remoteClosed c ∧ (s'.conn c).socket = none) := by
  cases hm with
  | wait | abort | plain | unwind => exact .inl (.inl rfl)
  | @connection_throws _ _ _ _ what => exact absurd (by simp) (hthrows what)
  | _ =>
    simp [Function.update_apply] <;> grind -ring -linarith [Frame.registers]

theorem move_awaited [Fintype T] (hm : Move cfg s t fs input f s') (hstack : s.stack t = f :: fs)
    (hsettling : f.settling cfg s t input fs) (hthrows : ∀ what, .throwing what ∉ s'.stack t)
    (h : s.Tended) {c : ConnId} (hwanted : s'.Wanted c) : s'.Awaited c := by
  have hf : ∀ what, f ≠ .throwing what := by
    rintro what rfl
    cases hsettling
  have hpending := hwanted.1
  have hasked : s.Asked c → s'.Awaited c := by
    intro hasked
    rcases move_asked hm hasked with hkept | ⟨rfl, queue, hqueue⟩
    · exact .inl hkept
    · rcases move_taken hm hsettling hthrows hqueue with hkept | ⟨hwrite, -⟩ | ⟨hresolved, -⟩
      · exact .inl hkept
      · exact .inr (.inl hwrite)
      · rw [hresolved] at hpending
        cases hpending
  rcases move_wanted hm hstack hwanted with hold | hnew
  · rcases h.wanted c hold with hqueue | hwrite | hreports
    · exact hasked hqueue
    · by_cases hregisters : f.registers c
      · exact hasked (h.registers c hold ⟨t, f, hstack ▸ List.mem_cons_self, hregisters⟩)
      · rcases move_watch hm hthrows (Bool.eq_false_iff.mpr hregisters) with
          (hsame | hnew) | ⟨rfl, -⟩
        · exact .inr (.inl (hsame.trans hwrite))
        · exact .inr (.inl hnew)
        · simp [Frame.settling, hold.1] at hsettling
    · rcases move_occurs hm hstack hf hreports with htop | hkept
      · rcases move_reports hm hstack hsettling hthrows htop with ⟨g, hg⟩ | ⟨hresolved, -⟩
        · exact .inr (.inr ⟨t, g, hg⟩)
        · rw [hresolved] at hpending
          cases hpending
      · exact .inr (.inr hkept)
  · exact .inl hnew

theorem move_registered (hm : Move cfg s t fs input f s') (hstack : s.stack t = f :: fs)
    (hthrows : ∀ what, .throwing what ∉ s'.stack t) (h : s.Tended) (howned : s.Owned) {c : ConnId}
    (hwanted : s'.Wanted c) (hregisters : Occurs (fun f => f.registers c) s'.stack) :
    s'.Asked c := by
  rcases move_wanted hm hstack hwanted with hold | hnew
  · rcases move_registers hm hstack hthrows hregisters with hbefore | hresolved
    · rcases move_asked hm (h.registers c hold hbefore) with hkept | ⟨rfl, queue, hqueue⟩
      · exact hkept
      · exact absurd hbefore (howned.not_registers hstack (h.bottom t) hqueue)
    · rw [hwanted.1] at hresolved
      cases hresolved
  · exact hnew

/-- Where a socket comes to be open. -/
theorem move_opened (hm : Move cfg s t fs input f s') {c : ConnId}
    (h : (s'.conn c).socket ≠ none) : (s.conn c).socket ≠ none ∨ s'.Asked c := by
  cases hm with
  | wait | abort | plain | unwind => exact .inl h
  | @connect r c' w =>
    by_cases hc : c = c'
    · exact .inr ⟨w, by simp [hc]⟩
    · exact .inl (by simpa [hc] using h)
  | _ =>
    simp [Function.update_apply] at h
    grind -ring -linarith

theorem move_listed (hm : Move cfg s t fs input f s') {c : ConnId} (h : (s.conn c).listed)
    (hopen : (s'.conn c).socket ≠ none) : (s'.conn c).listed := by
  cases hm with
  | wait | abort | plain | unwind => exact h
  | _ =>
    simp [Function.update_apply] at hopen ⊢
    grind -ring -linarith

/-- Where the socket comes to be watched for its input. -/
theorem move_registering (hm : Move cfg s t fs input f s') {c : ConnId}
    (hregisters : f.registers c) : (s'.conn = s.conn ∧ s'.stack = s.stack) ∨
      ((s'.conn c).watch = .read ∧ (f = .insertConnection c → (s'.conn c).listed)) := by
  cases hm with
  | wait | abort => exact .inl ⟨rfl, rfl⟩
  | plain hp => cases hp <;> cases hregisters
  | insertConnection | modifyFd => simp_all [Frame.registers]
  | reject_throws h => rcases h with ⟨error, rfl⟩ | rfl <;> cases hregisters
  | _ => cases hregisters

theorem move_watched [Fintype T] (hm : Move cfg s t fs input f s') (hstack : s.stack t = f :: fs)
    (hsettling : f.settling cfg s t input fs) (hthrows : ∀ what, .throwing what ∉ s'.stack t)
    (h : s.Tended) {c : ConnId} (hopen : (s'.conn c).socket ≠ none) : s'.Watched c := by
  have hf : ∀ what, f ≠ .throwing what := by
    rintro what rfl
    cases hsettling
  rcases move_opened hm hopen with hbefore | hasked
  · rcases h.watched c hbefore with hasked | hinsert | ⟨hlist, hwatch⟩
    · rcases move_asked hm hasked with hkept | ⟨rfl, queue, hqueue⟩
      · exact .inl hkept
      · rcases move_taken hm hsettling hthrows hqueue with hkept | ⟨hwrite, hlist⟩ | ⟨-, hinsert⟩
        · exact .inl hkept
        · exact .inr (.inr ⟨hlist, .inl (by rw [hwrite]; nofun)⟩)
        · exact .inr (.inl ⟨t, _, hinsert, rfl⟩)
    · rcases move_occurs hm hstack hf hinsert with rfl | hkept
      · rcases move_registering hm (c := c) (by simp [Frame.registers]) with
          ⟨-, hkept⟩ | ⟨hread, hlist⟩
        · exact .inr (.inl (hkept ▸ hinsert))
        · exact .inr (.inr ⟨hlist rfl, .inl (by rw [hread]; nofun)⟩)
      · exact .inr (.inl hkept)
    · have hlist' := move_listed hm hlist hopen
      refine .inr (.inr ⟨hlist', ?_⟩)
      by_cases hregisters : f.registers c
      · rcases move_registering hm hregisters with ⟨hconn, hkept⟩ | ⟨hread, -⟩
        · rwa [hconn, hkept]
        · exact .inl (by rw [hread]; nofun)
      · rcases hwatch with hwatch | hreports | hmodify
        · rcases move_watch hm hthrows (Bool.eq_false_iff.mpr hregisters) with
            (hsame | hnew) | ⟨-, hclosed⟩
          · exact .inl (by rwa [hsame])
          · exact .inl (by rw [hnew]; nofun)
          · exact absurd hclosed hopen
        · rcases move_occurs hm hstack hf hreports with htop | hkept
          · rcases move_reports hm hstack hsettling hthrows htop with ⟨g, hg⟩ | ⟨-, hmodify⟩
            · exact .inr (.inl ⟨t, g, hg⟩)
            · exact .inr (.inr ⟨t, _, hmodify, rfl⟩)
          · exact .inr (.inl hkept)
        · rcases move_occurs hm hstack hf hmodify with rfl | hkept
          · simp [Frame.registers] at hregisters
          · exact .inr (.inr hkept)
  · exact .inl hasked

theorem move_tended [Fintype T] (hm : Move cfg s t fs input f s') (hstack : s.stack t = f :: fs)
    (hsettling : f.settling cfg s t input fs) (hthrows : ∀ what, .throwing what ∉ s'.stack t)
    (h : s.Tended) (howned : s.Owned) : s'.Tended where
  bottom u := by
    by_cases hu : u = t
    · subst hu
      exact move_bottom hstack hm (hstack ▸ h.bottom u)
    · rw [hm.stack, Function.update_of_ne hu]
      exact h.bottom u
  attempt := move_attempt hm hsettling h.attempt
  requests := move_waits hm hstack hsettling hthrows h.attempt h.requests
  wanted c := move_awaited hm hstack hsettling hthrows h
  registers c := move_registered hm hstack hthrows h howned
  watched c := move_watched hm hstack hsettling hthrows h

end

/-- A thread with nothing under way begins with something. -/
theorem State.Tended.begun {s s' : State T} {t : T} {gs : List Frame} (h : s.Tended)
    (hb : Begins s s' t gs) (hbottom : Tower Bottom gs)
    (hgs : ∀ g ∈ gs, ∀ c, g.registers c = false ∧ g ≠ .attach c)
    (hwatch : ∀ c, (s'.conn c).watch = (s.conn c).watch ∨ ∃ g ∈ gs, g.reports c) : s'.Tended := by
  have hattempt := fun c => congrArg Connection.attempt (hb.conn c)
  have hattached := fun c => congrArg Connection.attached (hb.conn c)
  have hasked : ∀ c, s.Asked c → s'.Asked c := fun c ⟨w, hw⟩ => ⟨w, hb.transport ▸ hw⟩
  have hkeep : ∀ {P : Frame → Prop}, Occurs P s.stack → Occurs P s'.stack :=
    fun ⟨u, g, hg, hP⟩ => ⟨u, g, hb.kept hg, hP⟩
  have hold : ∀ {P : Frame → Prop}, (∀ g ∈ gs, ¬ P g) → Occurs P s'.stack → Occurs P s.stack := by
    rintro P hnot ⟨u, g, hg, hP⟩
    exact ⟨u, g, (hb.old hg).resolve_right fun hg => hnot g hg hP, hP⟩
  have hreported : ∀ c g, g ∈ gs → g.reports c → Occurs (fun f => f.reports c) s'.stack :=
    fun c g hg hreports => ⟨t, g, hb.top hg, hreports⟩
  have hwanted : ∀ c, s'.Wanted c → s.Wanted c := by
    rintro c ⟨hpending, hw⟩
    refine ⟨(hattempt c).symm.trans hpending, ?_⟩
    rcases hw with hw | hw
    · exact .inl ((hattached c).symm.trans hw)
    · exact .inr (hold (fun g hg => (hgs g hg c).2) hw)
  refine ⟨fun u => ?_, fun c => ?_, fun c hqueue => ?_, fun c hw => ?_, fun c hw hregisters => ?_,
    fun c hopen => ?_⟩
  · by_cases hu : u = t
    · subst hu
      rw [hb.stack, Function.update_self]
      exact hbottom
    · rw [hb.stack, Function.update_of_ne hu]
      exact h.bottom u
  · rw [hattempt]
    exact h.attempt c
  · rw [hb.conn c] at hqueue
    rw [hattempt, hattached]
    exact (h.requests c hqueue).imp_left hkeep
  · rcases h.wanted c (hwanted c hw) with hqueue | hwrite | hreports
    · exact .inl (hasked c hqueue)
    · rcases hwatch c with hsame | ⟨g, hg, hreports⟩
      · exact .inr (.inl (hsame.trans hwrite))
      · exact .inr (.inr (hreported c g hg hreports))
    · exact .inr (.inr (hkeep hreports))
  · exact hasked c (h.registers c (hwanted c hw)
      (hold (fun g hg => by rw [(hgs g hg c).1]; nofun) hregisters))
  · rw [hb.conn c] at hopen
    rcases h.watched c hopen with hqueue | hinsert | ⟨hlist, hrest⟩
    · exact .inl (hasked c hqueue)
    · exact .inr (.inl (hkeep hinsert))
    · refine .inr (.inr ⟨by rwa [hb.conn c], ?_⟩)
      rcases hrest with hnone | hreports | hmodify
      · rcases hwatch c with hsame | ⟨g, hg, hreports⟩
        · exact .inl (by rwa [hsame])
        · exact .inr (.inl (hreported c g hg hreports))
      · exact .inr (.inl (hkeep hreports))
      · exact .inr (.inr (hkeep hmodify))

theorem tended_step [Fintype T] {cfg : Config T} {s s' : State T} {event : Event T}
    (h : s.Tended) (howned : s.Owned) (hsettling : settling cfg s event)
    (hthrows : ∀ t what, .throwing what ∉ s'.stack t) (hs : Happens cfg s event s') :
    s'.Tended := by
  cases hs with
  | nothing => exact h
  | tick => exact ⟨h.bottom, h.attempt, h.requests, h.wanted, h.registers, h.watched⟩
  | @frame t input f fs _ hstack hm =>
    exact move_tended hm hstack (by simpa only [settling, hstack] using hsettling) (hthrows t) h
      howned
  | poll hstack =>
    refine h.begun (.poll hstack) ⟨⟨fun _ _ => rfl, by rintro ⟨⟩⟩, trivial⟩ (fun g hg c => ?_)
      (fun c => ?_)
    · rw [List.mem_singleton.mp hg]
      exact ⟨rfl, by rintro ⟨⟩⟩
    · simp only [State.goto, State.setLock, State.reported]
      split
      · rename_i hreported
        exact .inr ⟨_, List.mem_singleton_self _, by simpa [Frame.reports] using hreported⟩
      · exact .inl rfl
  | call hstack =>
    refine h.begun (.call hstack) (by simp [Tower, bottom_iff]) (fun g hg c => ?_)
      (fun c => .inl rfl)
    simp only [List.mem_cons, List.not_mem_nil, or_false] at hg
    rcases hg with rfl | rfl <;> exact ⟨rfl, by rintro ⟨⟩⟩

end Pistache.Experimental
