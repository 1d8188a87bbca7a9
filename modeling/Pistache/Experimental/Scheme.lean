import Pistache.Experimental.Places
import Pistache.Experimental.Threads

/-!
# The scheme of a request and the mode of its connection

The pool and the queue of a host are those of both schemes: `pickConnection` is given the host
alone, and what it finds may be connected already.

* `State.Live` — a scheme is in use for a host: by a request under way, a request that waits, or a
  socket that is open.
* `live_step` — only a call of `doRequest` brings in another one.
* `written_scheme` — where each call finds no scheme but its own in use for its host, every
  request is written to a connection of its scheme.
-/

set_option autoImplicit false

namespace Pistache.Experimental

variable {T : Type} [DecidableEq T]

/-! ## Schemes in use -/

/-- The request is under way or waits. -/
inductive State.Carries (s : State T) (r : Request) : Prop where
  | frame {t : T} {f : Frame} : f ∈ s.stack t → f.request = some r → s.Carries r
  | queue {host : Bytes} : r ∈ s.queue host → s.Carries r
  | requests {c : ConnId} : r ∈ (s.conn c).requestsQueue → s.Carries r
  | sent {w : T} {e : Sent} : e ∈ (s.transport w).requestsQueue → e.request = r → s.Carries r

/-- The scheme is in use for the host. -/
inductive State.Live (s : State T) (host : Bytes) (https : Bool) : Prop where
  | request {r : Request} : s.Carries r → r.host = host → r.https = https → s.Live host https
  | socket {c : ConnId} : (s.conn c).socket = some https → c.host = host → s.Live host https

/-- A call of `doRequest` finds no scheme but its own in use for its host. -/
def Alone (s : State T) : Event T → Prop
  | .thread _ (.doRequest resource _ _) =>
    ∀ https, s.Live (splitUrl resource).2 https → https = (splitUrl resource).1
  | _ => True

/-! ## Steps -/

/-- The request of a call. -/
def Event.asked (s : State T) : Event T → Option Request
  | .thread _ (.doRequest resource timeout size) => some ⟨s.requests.length, resource, timeout, size⟩
  | _ => none

/-- A step carries on what was under way. -/
theorem move_carries {cfg : Config T} {s s' : State T} {t : T} {fs : List Frame} {input : Input}
    {f : Frame} (hstack : s.stack t = f :: fs) (hm : Move cfg s t fs input f s') {r : Request}
    (h : s'.Carries r) : s.Carries r ∨ Event.asked s (.thread t input) = some r := by
  have hf : f ∈ s.stack t := hstack ▸ List.mem_cons_self
  cases h with
  | @frame u g hg hr =>
    by_cases hu : u = t
    · subst hu
      rcases move_frames hstack hm hg with hg | harises
      · exact .inl (.frame (t := u) (hstack ▸ List.mem_cons_of_mem _ hg) hr)
      · cases harises with
        | called hrequest =>
          rcases hrequest with hnone | hsame
          · rw [hnone] at hr
            cases hr
          · exact .inl (.frame hf (hsame ▸ hr))
        | requests c r' hg hmem =>
          subst hg
          cases hr
          exact .inl (.requests hmem)
        | queue c r' hg htop hmem =>
          subst hg
          cases hr
          exact .inl (.queue hmem)
        | sent e hg hmem =>
          subst hg
          exact .inl (.sent hmem (Option.some.inj hr))
        | picked c hc hindex hrequest => exact .inl (.frame hf (hrequest r hr).1)
        | asked r' hg hinput hid =>
          subst hg
          cases hr
          right
          rw [hinput, Event.asked, ← hid]
    · rw [hm.stack, Function.update_of_ne hu] at hg
      exact .inl (.frame hg hr)
  | queue hmem =>
    rcases move_queue hm hmem with hold | ⟨rfl, -⟩
    · exact .inl (.queue hold)
    · exact .inl (.frame hf rfl)
  | requests hmem =>
    rcases move_requests hm hmem with hold | rfl
    · exact .inl (.requests hold)
    · exact .inl (.frame hf rfl)
  | sent hmem hr =>
    rcases move_sent hm hmem with hold | rfl
    · exact .inl (.sent hold hr)
    · exact .inl (.frame hf (congrArg some hr))

/-- Bytes are written by the loop of `asyncSendRequestImpl`. -/
theorem move_written {cfg : Config T} {s s' : State T} {t : T} {fs : List Frame} {input : Input}
    {f : Frame} (hm : Move cfg s t fs input f s') {r : Request} {tls : Bool}
    (h : (r, tls) ∈ s'.written) : (r, tls) ∈ s.written ∨
      ∃ c timer total, f = .send c r timer total ∧ tls = s.isSsl c := by
  cases hm with
  | wait | abort | plain | unwind => exact .inl h
  | send_again | send_done | send_timed =>
    simp at h
    rcases h with ⟨rfl, rfl⟩ | h
    · exact .inr ⟨_, _, _, rfl, rfl⟩
    · exact .inl h
  | _ => exact .inl (by simpa using h)

/-- The loop of `asyncSendRequestImpl` is entered with a socket. -/
theorem move_enters {cfg : Config T} {s s' : State T} {t : T} {fs : List Frame} {input : Input}
    {f : Frame} (hm : Move cfg s t fs input f s') (hfs : ∀ g ∈ fs, g.request = none)
    (hwait : s.stack t = f :: fs) {c : ConnId} {r : Request} {timer : Option Nat} {total : Nat}
    (hg : .send c r timer total ∈ s'.stack t) : (s'.conn c).socket = (s.conn c).socket ∧
      ((∃ total, f = .send c r timer total) ∨ (s.conn c).socket ≠ none) := by
  have hrest : Frame.send c r timer total ∉ fs := fun hmem => by cases hfs _ hmem
  cases hm with
  | wait | abort =>
    simp [hwait, hrest] at hg
    exact ⟨rfl, .inl ⟨total, hg.symm⟩⟩
  | plain hp =>
    refine ⟨rfl, ?_⟩
    cases hp <;> simp at hg <;> grind -ring -linarith
  | send_again =>
    simp [hrest] at hg
    obtain ⟨rfl, rfl, rfl, -⟩ := hg
    exact ⟨rfl, .inl ⟨_, rfl⟩⟩
  | _ => simp at hg <;> grind -ring -linarith [State.continuation]

/-! ## Runs -/

/-- One scheme for each host, and open sockets where bytes are written. -/
structure State.Uniform (s : State T) : Prop where
  one : ∀ host https https', s.Live host https → s.Live host https' → https = https'
  sending : ∀ t c r timer total, .send c r timer total ∈ s.stack t → (s.conn c).socket ≠ none
  written : ∀ r tls, (r, tls) ∈ s.written → r.https = tls

/-- Only a call of `doRequest` brings in a scheme. -/
theorem live_step {cfg : Config T} {s s' : State T} {event : Event T} (h : s.Keyed cfg)
    (hs : Happens cfg s event s') {host : Bytes} {https : Bool} (hlive : s'.Live host https) :
    s.Live host https ∨ ∃ r, Event.asked s event = some r ∧ r.host = host ∧ r.https = https := by
  cases hs with
  | nothing => exact .inl hlive
  | tick =>
    left
    cases hlive with
    | request hcarries hhost hhttps =>
      refine .request ?_ hhost hhttps
      cases hcarries with
      | frame hg hr => exact .frame hg hr
      | queue hmem => exact .queue hmem
      | requests hmem => exact .requests hmem
      | sent hmem hr => exact .sent hmem hr
    | socket hsocket hhost => exact .socket hsocket hhost
  | @frame t input f fs _ hstack hm =>
    cases hlive with
    | @request r hcarries hhost hhttps =>
      rcases move_carries hstack hm hcarries with hold | hasked
      · exact .inl (.request hold hhost hhttps)
      · exact .inr ⟨r, hasked, hhost, hhttps⟩
    | @socket c hsocket hhost =>
      left
      rcases move_socket hm c with hsame | ⟨r, rfl, hopened⟩ | ⟨-, hclosed⟩
      · exact .socket (hsame ▸ hsocket) hhost
      · have hhttps : r.https = https := Option.some.inj (hopened.symm.trans hsocket)
        have hmem : Frame.connect r c ∈ s.stack t := hstack ▸ List.mem_cons_self
        exact .request (.frame hmem rfl) ((h.frame t _ c r hmem rfl rfl).trans hhost) hhttps
      · rw [hclosed] at hsocket
        cases hsocket
  | @poll t events hstack =>
    left
    have hconn : ∀ c, (s.reported events c).socket = (s.conn c).socket ∧
        (s.reported events c).requestsQueue = (s.conn c).requestsQueue := by
      intro c
      unfold State.reported
      split <;> exact ⟨rfl, rfl⟩
    cases hlive with
    | @request r hcarries hhost hhttps =>
      refine .request ?_ hhost hhttps
      cases hcarries with
      | @frame u g hg hr =>
        by_cases hu : u = t
        · simp [hu] at hg
          rw [hg] at hr
          cases hr
        · simp [hu] at hg
          exact .frame hg hr
      | queue hmem => exact .queue hmem
      | @requests c hmem => exact .requests (c := c) ((hconn c).2 ▸ hmem)
      | sent hmem hr => exact .sent hmem hr
    | @socket c hsocket hhost => exact .socket ((hconn c).1 ▸ hsocket) hhost
  | @call t resource timeout size hstack =>
    cases hlive with
    | @request r hcarries hhost hhttps =>
      cases hcarries with
      | @frame u g hg hr =>
        by_cases hu : u = t
        · simp [hu] at hg
          rcases hg with rfl | rfl
          · exact .inr ⟨r, hr, hhost, hhttps⟩
          · cases hr
        · simp [hu] at hg
          exact .inl (.request (.frame hg hr) hhost hhttps)
      | queue hmem => exact .inl (.request (.queue hmem) hhost hhttps)
      | requests hmem => exact .inl (.request (.requests hmem) hhost hhttps)
      | sent hmem hr => exact .inl (.request (.sent hmem hr) hhost hhttps)
    | socket hsocket hhost => exact .inl (.socket hsocket hhost)

theorem uniform_step {cfg : Config T} {s s' : State T} {event : Event T} (howned : s.Owned)
    (hkeyed : s.Keyed cfg) (hleaves : s.Leaves) (h : s.Uniform) (halone : Alone s event) (hs : Happens cfg s event s') : s'.Uniform := by
  have hnew : ∀ r, Event.asked s event = some r → ∀ https, s.Live r.host https →
      https = r.https := by
    intro r hr https hlive
    cases event with
    | tick d => cases hr
    | thread t input =>
      cases input with
      | doRequest resource timeout size =>
        cases hr
        exact halone https hlive
      | _ => cases hr
  have hone : ∀ host https https', s'.Live host https → s'.Live host https' → https = https' := by
    intro host https https' hlive hlive'
    rcases live_step hkeyed hs hlive with hold | ⟨r, hr, rfl, rfl⟩
    · rcases live_step hkeyed hs hlive' with hold' | ⟨r', hr', rfl, rfl⟩
      · exact h.one host https https' hold hold'
      · exact hnew r' hr' https hold
    · rcases live_step hkeyed hs hlive' with hold' | ⟨r', hr', -, rfl⟩
      · exact (hnew r hr https' hold').symm
      · rw [Option.some.inj (hr.symm.trans hr')]
  refine ⟨hone, ?_, ?_⟩
  · intro t c r timer total hg
    cases hs with
    | nothing | tick => exact h.sending t c r timer total hg
    | @frame u input f fs _ hstack hm =>
      have hfs : ∀ g ∈ fs, g.request = none := fun g hg => hleaves u g (by rwa [hstack])
      by_cases ht : t = u
      · subst ht
        obtain ⟨hsame, ⟨total', rfl⟩ | hopen⟩ := move_enters hm hfs hstack hg
        · exact hsame ▸ h.sending t c r timer total' (hstack ▸ List.mem_cons_self)
        · exact hsame ▸ hopen
      · rw [hm.stack, Function.update_of_ne ht] at hg
        have hopen := h.sending t c r timer total hg
        rcases move_socket hm c with hsame | ⟨r', -, hopened⟩ | ⟨rfl, -⟩
        · exact hsame ▸ hopen
        · simp [hopened]
        · -- a connection is closed by the thread of its transport, which would be sending
          have hhere := howned.frame t _ c hg List.mem_cons_self
          have hclosing := howned.frame u _ c (hstack ▸ List.mem_cons_self) List.mem_cons_self
          exact absurd (Option.some.inj (hhere.symm.trans hclosing)) ht
    | @poll u events hstack =>
      have hsame : (s.reported events c).socket = (s.conn c).socket := by
        unfold State.reported
        split <;> rfl
      by_cases ht : t = u
      · simp [ht] at hg
      · simp [ht] at hg
        exact hsame ▸ h.sending t c r timer total hg
    | @call u resource timeout size hstack =>
      by_cases ht : t = u
      · simp [ht] at hg
      · simp [ht] at hg
        exact h.sending t c r timer total hg
  · intro r tls hmem
    cases hs with
    | nothing | tick | poll | call => exact h.written r tls hmem
    | @frame t input f fs _ hstack hm =>
      rcases move_written hm hmem with hold | ⟨c, timer, total, rfl, rfl⟩
      · exact h.written r tls hold
      · have hsend : Frame.send c r timer total ∈ s.stack t := hstack ▸ List.mem_cons_self
        obtain ⟨tls, htls⟩ := Option.ne_none_iff_exists'.mp (h.sending t c r timer total hsend)
        have hhost := hkeyed.frame t _ c r hsend rfl rfl
        have hscheme : r.https = tls :=
          h.one r.host r.https tls (.request (.frame hsend rfl) rfl rfl) (.socket htls hhost.symm)
        cases tls <;> simp [State.isSsl, htls, hscheme]

omit [DecidableEq T] in
theorem not_live_start (host : Bytes) (https : Bool) : ¬(start : State T).Live host https := by
  intro hlive
  cases hlive with
  | request hcarries => cases hcarries <;> simp_all [start]
  | socket hsocket => simp [start] at hsocket

/-- **The scheme of a request**: where each call of `doRequest` finds no scheme but its own in use
for its host, a request is written to a connection of its scheme. -/
theorem written_scheme (cfg : Config T) (events : List (Event T))
    (h : Machine.Always (next cfg) Alone start events) (r : Request) (tls : Bool)
    (hmem : (r, tls) ∈ (run cfg start events).written) : r.https = tls := by
  suffices hinv : (run cfg start events).Owned ∧ (run cfg start events).Keyed cfg ∧
      (run cfg start events).Leaves ∧ (run cfg start events).Uniform from
    hinv.2.2.2.written r tls hmem
  refine always_inv (I := fun s => s.Owned ∧ s.Keyed cfg ∧ s.Leaves ∧ s.Uniform)
    ⟨?_, keyed_start cfg, ?_, ?_⟩
    (fun s event s' ⟨howned, hkeyed, hleaves, h⟩ halone hs =>
      ⟨owned_step howned hs, keyed_step hkeyed hs, leaves_step hleaves hs,
        uniform_step howned hkeyed hleaves h halone hs⟩) h
  · exact ⟨by simp [start], by simp [start], by simp [start], by simp [start]⟩
  · simp [State.Leaves, start]
  · exact ⟨fun host https https' hlive => absurd hlive (not_live_start host https),
      by simp [start], by simp [start]⟩

/-- A request for http, with a connection of its own. -/
theorem written_plain : Request.https ⟨0, lit "http://h/", 0, 5⟩ = false := by
  refine written_scheme small (connecting (lit "http://h/") 0 ++ performing) ?_
    ⟨0, lit "http://h/", 0, 5⟩ false (by decide)
  refine ⟨fun https hlive => absurd hlive (not_live_start _ https), ?_⟩
  repeat' first | exact trivial | constructor

set_option maxRecDepth 8000 in
/-- A request for https, written to the plain connection that one for http has left. -/
theorem written_downgrade :
    (⟨1, lit "https://h/", 0, 5⟩, false) ∈ (run small start (connecting (lit "http://h/") 0 ++
      performing ++ responding ++ reusing (lit "https://h/") 0)).written ∧
    Request.https ⟨1, lit "https://h/", 0, 5⟩ = true := by
  decide

end Pistache.Experimental
