import Pistache.Tcp.SettlingStep

/-!
# Every promise is settled

* `Sane.still`, `Sane.answer` and the others — the entries in the queues are those of calls that
  have not been settled.
* `Status.step` — one event, seen from one promise.
* `promise_settled` — over all runs: a promise whose entry has left is settled once and rightly
  exactly when no event lost it.
-/

set_option autoImplicit false

namespace Pistache.Tcp

namespace Settling

variable {d : Nat} {s : Settling} {t t' : Transport} {fd : Fd}

/-! ## All entries -/

theorem sane_empty : Sane {} where
  queue _ he := nomatch he
  deque _ _ he := nomatch he
  inner _ _ h := Running.noConfusion h
  settled _ hx := nomatch hx
  sent _ hx := nomatch hx

/-- An event that settles and sends nothing and makes no entry. -/
theorem Sane.frame (h : Sane s) {s' : Settling} (hcalls : s'.system.calls = s.system.calls)
    (hsettled : s'.settled = s.settled) (hsent : s'.system.sent = s.system.sent)
    (hqueue : ∀ e ∈ s'.system.transport.writesQueue, e ∈ s.system.transport.writesQueue)
    (hto : ∀ fd, ∀ e ∈ s'.system.transport.toWrite fd,
      e ∈ s.system.transport.toWrite fd ∨ e ∈ s.system.transport.writesQueue)
    (hinner : ∀ fd n, s'.system.transport.running = .inner fd n →
      ∃ e wq, s'.system.transport.toWrite fd = e :: wq ∧ n ≤ e.buffer.size) : Sane s' where
  queue e he := by rw [hcalls]; exact h.queue e (hqueue e he)
  deque fd e he := by
    rw [hcalls]
    exact (hto fd e he).elim (h.deque fd e) (h.queue e)
  inner := hinner
  settled x hx := by
    rw [hcalls]
    rw [hsettled] at hx
    exact h.settled x hx
  sent x hx := by
    rw [hcalls]
    rw [hsent] at hx
    exact h.sent x hx

theorem Sane.asyncWrite (h : Sane s) (fd : Option Fd) (buffer : Buffer) :
    Sane (s.step (.asyncWrite fd buffer)) := by
  have hcalls : (s.step (.asyncWrite fd buffer)).system.calls =
      s.system.calls ++ [⟨fd, buffer, fd.bind s.system.owner⟩] := rfl
  have hlen : (s.step (.asyncWrite fd buffer)).system.calls.length = s.system.calls.length + 1 := by
    rw [hcalls, List.length_append, List.length_singleton]
  have hsettled : (s.step (.asyncWrite fd buffer)).settled = s.settled :=
    step_settled fun a => Event.noConfusion
  refine ⟨fun e he => ?_, fun fd' e he => ?_, h.inner, fun x hx => ?_, fun x hx => ?_⟩
  · rw [hlen]
    rcases List.mem_append.mp he with he | he
    · obtain ⟨hd, hoffset⟩ := h.queue e he
      exact ⟨by omega, hoffset⟩
    · obtain rfl := List.mem_singleton.mp he
      exact ⟨by simp only; omega, by simp⟩
  · rw [hlen]
    obtain ⟨hd, hoffset⟩ := h.deque fd' e he
    exact ⟨by omega, hoffset⟩
  · rw [hsettled] at hx
    have := h.settled x hx
    omega
  · have := h.sent x hx
    omega

theorem Sane.handleWriteQueue (h : Sane s) (flush : Bool) :
    Sane (s.step (.handleWriteQueue flush)) := by
  have hsettled : (s.step (.handleWriteQueue flush)).settled = s.settled :=
    step_settled fun a => Event.noConfusion
  by_cases hno : s.system.transport.running = .no
  · have hsystem : (s.step (.handleWriteQueue flush)).system =
        { s.system with transport := s.system.transport.handleWriteQueue flush } := by
      simp only [step, System.step, if_pos hno]
    have hcalls : (s.step (.handleWriteQueue flush)).system.calls = s.system.calls := by
      rw [hsystem]
    have hsent : (s.step (.handleWriteQueue flush)).system.sent = s.system.sent := by rw [hsystem]
    have htransport : (s.step (.handleWriteQueue flush)).system.transport =
        s.system.transport.handleWriteQueue flush := by rw [hsystem]
    rcases s.system.transport.handleWriteQueue_cases flush with ⟨-, he⟩ |
      ⟨write, rest, hqueue, ⟨-, he⟩ | ⟨fd, -, -, he⟩⟩
    · rw [he] at htransport
      refine h.frame hcalls hsettled hsent ?_ ?_ ?_
      · exact fun e he => htransport ▸ he
      · exact fun fd e he => .inl (htransport ▸ he)
      · rw [htransport]
        exact h.inner
    · rw [he] at htransport
      refine h.frame hcalls hsettled hsent (fun e he => ?_) (fun fd e he => ?_) ?_
      · rw [htransport] at he
        rw [hqueue]
        exact List.mem_cons_of_mem write he
      · rw [htransport] at he
        exact .inl he
      · rw [htransport]
        exact h.inner
    · rw [he] at htransport
      refine h.frame hcalls hsettled hsent (fun e he => ?_) (fun fd' e he => ?_) fun fd' n hr => ?_
      · rw [htransport] at he
        rw [hqueue]
        exact List.mem_cons_of_mem write he
      · rw [htransport] at he
        by_cases hfd : fd' = fd
        · subst hfd
          simp only [Function.update_self] at he
          rcases List.mem_append.mp he with he | he
          · exact .inl he
          · obtain rfl := List.mem_singleton.mp he
            exact .inr (hqueue ▸ List.mem_cons_self)
        · simp only [Function.update_of_ne hfd] at he
          exact .inl he
      · exfalso
        rw [htransport] at hr
        cases flush <;> simp [hno] at hr
  · have hsystem : (s.step (.handleWriteQueue flush)).system = s.system := by
      simp only [step, System.step, if_neg hno]
    refine h.frame (by rw [hsystem]) hsettled (by rw [hsystem]) ?_ ?_ ?_ <;> rw [hsystem]
    · exact fun e he => he
    · exact fun fd e he => .inl he
    · exact h.inner

theorem Sane.answer (h : Sane s) (a : Answer) : Sane (s.step (.answer a)) := by
  cases hrunning : s.system.transport.running with
  | no => simpa [step, System.step, hrunning] using h
  | top fd => simpa [step, System.step, hrunning] using h
  | inner fd n =>
    obtain ⟨e, wq, hto, hn⟩ := h.inner fd n hrunning
    obtain ⟨hd, -⟩ := h.deque fd e (by rw [hto]; exact List.mem_cons_self)
    have hwq : ∀ e' ∈ wq, e' ∈ s.system.transport.toWrite fd := fun e' he' => by
      rw [hto]
      exact List.mem_cons_of_mem e he'
    rw [step_answer a hrunning hto]
    generalize s.system.answerOf fd a = answer
    have hframe := s.system.transport.send_frame fd n answer
    refine ⟨fun e' he' => h.queue e' (hframe.1 ▸ he'), fun fd' e' he' => ?_, fun fd' m hm => ?_,
      fun x hx => ?_, fun x hx => ?_⟩
    · -- the deque of another file descriptor, a shorter one, or one with the front entry cut
      have hupdate : ∀ l : List WriteEntry, (∀ e' ∈ l, e' ∈ wq ∨ e'.deferred = e.deferred ∧
          e'.buffer.offset ≤ e'.buffer.size) →
          e' ∈ Function.update s.system.transport.toWrite fd l fd' →
          e'.deferred < s.system.calls.length ∧ e'.buffer.offset ≤ e'.buffer.size := by
        intro l hl he'
        by_cases hfd : fd' = fd
        · subst hfd
          rw [Function.update_self] at he'
          rcases hl e' he' with he' | ⟨hd', hoffset⟩
          · exact h.deque fd' e' (hwq e' he')
          · exact ⟨by rw [hd']; exact hd, hoffset⟩
        · rw [Function.update_of_ne hfd] at he'
          exact h.deque fd' e' he'
      unfold Transport.send at he'
      rw [hto] at he'
      cases answer with
      | wrote bytes =>
        dsimp only at he'
        split at he'
        · exact hupdate wq (fun _ => .inl) he'
        · exact h.deque fd' e' he'
      | again =>
        obtain ⟨buffer, hdetach, -, hoffset⟩ := BufferHolder.detach_eq hn
        dsimp only at he'
        rw [hdetach] at he'
        refine hupdate (⟨e.deferred, buffer, some fd⟩ :: wq) (fun x hx => ?_) he'
        rcases List.mem_cons.mp hx with rfl | hx
        · exact .inr ⟨rfl, hoffset⟩
        · exact .inl hx
      | gone => exact hupdate [] (fun _ hx => absurd hx List.not_mem_nil) he'
      | failed => exact hupdate wq (fun _ => .inl) he'
    · unfold Transport.send at hm ⊢
      rw [hto] at hm ⊢
      cases answer with
      | wrote bytes =>
        dsimp only at hm ⊢
        split at hm
        · exact absurd hm (Transport.running_cleanUp _ fd wq fd' m)
        · rename_i hpart
          obtain ⟨rfl, rfl⟩ := Running.inner.inj hm
          rw [if_neg hpart]
          exact ⟨e, wq, hto, by omega⟩
      | again =>
        obtain ⟨buffer, hdetach, -, -⟩ := BufferHolder.detach_eq hn
        dsimp only at hm
        rw [hdetach] at hm
        cases hm
      | gone => cases hm
      | failed => exact absurd hm (Transport.running_cleanUp _ fd wq fd' m)
    · rcases List.mem_append.mp hx with hx | hx
      · exact h.settled x hx
      · rw [settle_deferred hto x hx]
        exact hd
    · rcases List.mem_append.mp hx with hx | hx
      · exact h.sent x hx
      · obtain rfl := List.mem_singleton.mp hx
        exact hd

/-! ## Every event -/

/-- The entry at the front of a deque is about to be sent, from its offset. -/
theorem Place.loop {o : Option Bytes} (h : Place d t o) {fd : Fd} (hrunning : t.running = .top fd) :
    Place d (t.loop fd) o := by
  have hno : ∀ fd' n, t.running ≠ .inner fd' n := by simp [hrunning]
  unfold Transport.loop
  cases hto : t.toWrite fd with
  | nil => exact h.quiet rfl (fun _ => rfl) hno fun _ _ => Running.noConfusion
  | cons front wq =>
    cases h with
    | queue e h₁ h₂ => exact .queue e h₁ h₂
    | gone h₁ h₂ => exact .gone h₁ h₂
    | deque fd' e h₁ h₂ h₃ =>
      have hleft : remaining { t with running := .inner fd front.buffer.offset } fd' e =
          remaining t fd' e := by
        rw [remaining_of_not_inner (hno fd')]
        by_cases hfd : fd' = fd
        · subst hfd
          by_cases hd : front.deferred = d
          · rw [hto, own_cons_self d hd] at h₂
            obtain ⟨rfl, -⟩ := List.cons.inj h₂
            exact remaining_front rfl hto
          · refine remaining_behind rfl hto ?_
            rw [(own_mem h₂).2]
            exact hd
        · refine remaining_of_not_inner (fun n hn => ?_) e
          exact hfd (Running.inner.inj hn).1.symm
      rw [← hleft]
      exact .deque fd' e h₁ h₂ h₃

/-- The entries, the calls and what is sent and settled are left alone; a deque may begin to be
drained. -/
structure Still (s s' : Settling) : Prop where
  settled : s'.settled = s.settled
  calls : s'.system.calls = s.system.calls
  sent : s'.system.sent = s.system.sent
  writesQueue : s'.system.transport.writesQueue = s.system.transport.writesQueue
  toWrite : s'.system.transport.toWrite = s.system.transport.toWrite
  inner : ∀ fd n, s'.system.transport.running = .inner fd n →
    s.system.transport.running = .inner fd n ∨
      ∃ e wq, s.system.transport.toWrite fd = e :: wq ∧ n = e.buffer.offset
  place : ∀ d o, Place d s.system.transport o → Place d s'.system.transport o

/-- Nor has a deque begun to be drained. -/
theorem Still.of_running {s' : Settling} (hsettled : s'.settled = s.settled)
    (hcalls : s'.system.calls = s.system.calls) (hsent : s'.system.sent = s.system.sent)
    (hqueue : s'.system.transport.writesQueue = s.system.transport.writesQueue)
    (hto : s'.system.transport.toWrite = s.system.transport.toWrite)
    (hrunning : s'.system.transport.running = s.system.transport.running) : Still s s' where
  settled := hsettled
  calls := hcalls
  sent := hsent
  writesQueue := hqueue
  toWrite := hto
  inner fd n h := .inl (hrunning ▸ h)
  place d o h := h.congr (by rw [hqueue]) (fun fd => by rw [hto]) fun fd e _ => by
    rw [remaining, remaining, hto, hrunning]

theorem still_accept (fd : Fd) : Still s (s.step (.accept fd)) := by
  have hs : (s.step (.accept fd)).settled = s.settled := step_settled fun a => Event.noConfusion
  refine .of_running hs ?_ ?_ ?_ ?_ ?_ <;> simp only [step, System.step] <;> split <;> rfl

theorem still_handlePeer (fd : Fd) : Still s (s.step (.handlePeer fd)) := by
  have hs : (s.step (.handlePeer fd)).settled = s.settled := step_settled fun a => Event.noConfusion
  have hsystem : (s.step (.handlePeer fd)).system = s.system ∨
      ∃ peers_, (s.step (.handlePeer fd)).system =
        { s.system with transport := { s.system.transport with peers_ } } := by
    simp only [step, System.step]
    split
    · exact .inl rfl
    · unfold Transport.handlePeer
      split
      · exact .inr ⟨_, rfl⟩
      · exact .inl rfl
  rcases hsystem with h | ⟨peers_, h⟩
  · refine .of_running hs ?_ ?_ ?_ ?_ ?_ <;> rw [h]
  · refine .of_running hs ?_ ?_ ?_ ?_ ?_ <;> rw [h]

theorem still_writable (fd : Fd) : Still s (s.step (.writable fd)) := by
  have hs : (s.step (.writable fd)).settled = s.settled := step_settled fun a => Event.noConfusion
  by_cases hno : s.system.transport.running = .no
  · have hsystem : (s.step (.writable fd)).system =
        { s.system with transport := s.system.transport.asyncWriteImpl fd } := by
      simp only [step, System.step, if_pos hno]
    refine ⟨hs, ?_, ?_, ?_, ?_, fun fd' n hr => ?_, fun d o hp => ?_⟩
    · rw [hsystem]
    · rw [hsystem]
    · rw [hsystem]
      rfl
    · rw [hsystem]
      rfl
    · rw [hsystem] at hr
      cases hr
    · rw [hsystem]
      exact hp.quiet rfl (fun _ => rfl) (by simp [hno]) fun _ _ => Running.noConfusion
  · have hsystem : (s.step (.writable fd)).system = s.system := by
      simp only [step, System.step, if_neg hno]
    refine .of_running hs ?_ ?_ ?_ ?_ ?_ <;> rw [hsystem]

theorem still_loop : Still s (s.step .loop) := by
  have hs : (s.step .loop).settled = s.settled := step_settled fun a => Event.noConfusion
  cases hrunning : s.system.transport.running with
  | no =>
    have hsystem : (s.step .loop).system = s.system := by simp only [step, System.step, hrunning]
    refine .of_running hs ?_ ?_ ?_ ?_ ?_ <;> rw [hsystem]
  | inner fd n =>
    have hsystem : (s.step .loop).system = s.system := by simp only [step, System.step, hrunning]
    refine .of_running hs ?_ ?_ ?_ ?_ ?_ <;> rw [hsystem]
  | top fd =>
    have hsystem : (s.step .loop).system =
        { s.system with transport := s.system.transport.loop fd } := by
      simp only [step, System.step, hrunning]
    have hloop : (s.system.transport.loop fd).writesQueue = s.system.transport.writesQueue ∧
        (s.system.transport.loop fd).toWrite = s.system.transport.toWrite ∧
        ∀ fd' n, (s.system.transport.loop fd).running = .inner fd' n →
          ∃ e wq, s.system.transport.toWrite fd' = e :: wq ∧ n = e.buffer.offset := by
      unfold Transport.loop
      cases hto : s.system.transport.toWrite fd with
      | nil => exact ⟨rfl, rfl, fun _ _ h => Running.noConfusion h⟩
      | cons e wq =>
        refine ⟨rfl, rfl, fun fd' n hr => ?_⟩
        obtain ⟨rfl, rfl⟩ := Running.inner.inj hr
        exact ⟨e, wq, hto, rfl⟩
    refine ⟨hs, ?_, ?_, ?_, ?_, ?_, ?_⟩ <;> rw [hsystem]
    · exact hloop.1
    · exact hloop.2.1
    · exact fun fd' n hr => .inr (hloop.2.2 fd' n hr)
    · exact fun d o hp => hp.loop hrunning

theorem still_removePeer (fd : Fd) : Still s (s.step (.removePeer fd)) :=
  .of_running (step_settled fun _ => Event.noConfusion) rfl rfl rfl rfl rfl

theorem Sane.still (h : Sane s) {s' : Settling} (hstill : Still s s') : Sane s' := by
  refine h.frame hstill.calls hstill.settled hstill.sent (fun e he => hstill.writesQueue ▸ he)
    (fun fd e he => .inl (hstill.toWrite ▸ he)) fun fd n hr => ?_
  rw [hstill.toWrite]
  rcases hstill.inner fd n hr with hr | ⟨e, wq, hto, rfl⟩
  · exact h.inner fd n hr
  · exact ⟨e, wq, hto, (h.deque fd e (by rw [hto]; exact List.mem_cons_self)).2⟩

theorem Status.still {lost : Prop} (h : Status d s lost) {s' : Settling} (hstill : Still s s')
    {loses : Prop} (hno : ¬ loses) : Status d s' (lost ∨ loses) :=
  (h.quiet hstill.calls hstill.settled hstill.sent (hstill.place d)).or_not hno

theorem Sane.closeFd (h : Sane s) (fd : Fd) : Sane (s.step (.closeFd fd)) := by
  have hsettled : (s.step (.closeFd fd)).settled = s.settled :=
    step_settled fun a => Event.noConfusion
  have hsystem : (s.step (.closeFd fd)).system = s.system ∨
      (∀ fd' n, s.system.transport.running ≠ .inner fd' n) ∧
        (s.step (.closeFd fd)).system = { s.system with
          transport := s.system.transport.closeFd fd
          owner := Function.update s.system.owner fd none } := by
    simp only [step, System.step]
    split
    · exact .inl rfl
    · rename_i hnot
      exact .inr ⟨fun fd' n hr => hnot fd' n hr, rfl⟩
  rcases hsystem with hsystem | ⟨hquiet, hsystem⟩
  · refine h.frame (by rw [hsystem]) hsettled (by rw [hsystem]) ?_ ?_ ?_ <;> rw [hsystem]
    · exact fun e he => he
    · exact fun fd e he => .inl he
    · exact h.inner
  · refine h.frame (by rw [hsystem]) hsettled (by rw [hsystem]) ?_ ?_ ?_ <;> rw [hsystem]
    · exact fun e he => he
    · intro fd' e he
      by_cases hfd : fd' = fd
      · subst hfd
        simp only [Transport.closeFd, Function.update_self] at he
        cases he
      · simp only [Transport.closeFd, Function.update_of_ne hfd] at he
        exact .inl he
    · exact fun fd' n hr => absurd hr (hquiet fd' n)

/-- **One event**, seen from one promise. -/
theorem Status.step {lost : Prop} (hsane : Sane s) (h : Status d s lost) (event : Event) :
    Sane (s.step event) ∧ Status d (s.step event) (lost ∨ s.system.Loses d event) := by
  cases event with
  | accept fd => exact ⟨hsane.still (still_accept fd), h.still (still_accept fd) id⟩
  | handlePeer fd => exact ⟨hsane.still (still_handlePeer fd), h.still (still_handlePeer fd) id⟩
  | writable fd => exact ⟨hsane.still (still_writable fd), h.still (still_writable fd) id⟩
  | loop => exact ⟨hsane.still still_loop, h.still still_loop id⟩
  | removePeer fd => exact ⟨hsane.still (still_removePeer fd), h.still (still_removePeer fd) id⟩
  | asyncWrite fd buffer =>
    exact ⟨hsane.asyncWrite fd buffer, (h.asyncWrite hsane fd buffer).or_not id⟩
  | handleWriteQueue flush => exact ⟨hsane.handleWriteQueue flush, h.handleWriteQueue hsane flush⟩
  | answer a => exact ⟨hsane.answer a, h.answer hsane a⟩
  | closeFd fd => exact ⟨hsane.closeFd fd, h.closeFd hsane fd⟩

/-! ## Every run -/

theorem run_system : ∀ (events : List Event) (s : Settling),
    (s.run events).system = s.system.run events
  | [], _ => rfl
  | event :: events, s => run_system events (s.step event)

theorem Status.run : ∀ (events : List Event) {s : Settling} {lost : Prop}, Sane s →
    Status d s lost → Status d (s.run events) (lost ∨ s.system.LosesIn d events)
  | [], s, lost, _, h => by
    have hno : (lost ∨ s.system.LosesIn d []) = lost := propext (or_iff_left id)
    rw [hno]
    exact h
  | event :: events, s, lost, hsane, h => by
    obtain ⟨hsane', h'⟩ := h.step hsane event
    have hrun := Status.run events hsane' h'
    have hassoc : (lost ∨ s.system.LosesIn d (event :: events)) =
        ((lost ∨ s.system.Loses d event) ∨ (s.step event).system.LosesIn d events) :=
      propext or_assoc.symm
    rw [hassoc]
    exact hrun

end Settling

open Settling in
/-- **The promise of a write is settled**: when its entry is in no queue any more, it has been
settled once, with the size of the buffer if all its bytes were sent and by a rejection
otherwise, exactly when no event of the run lost it. -/
theorem promise_settled (events : List Event) (d : Nat)
    (hd : d < (({} : Settling).run events).system.calls.length)
    (hleft : ¬ (({} : Settling).run events).Waits d) :
    (({} : Settling).run events).Right d ↔ ¬ System.LosesIn d {} events := by
  have hstart : Status d ({} : Settling) False := .unissued (Nat.zero_le d) id
  have hrun := hstart.run events sane_empty
  have hlost : (False ∨ System.LosesIn d {} events) = System.LosesIn d {} events :=
    false_or _
  rw [show ({} : Settling).system = {} from rfl, hlost] at hrun
  cases hrun with
  | unissued hd' _ => omega
  | waiting call left _ hp _ _ _ _ =>
    refine absurd ?_ hleft
    cases hp with
    | queue e h₁ _ => exact .inl ⟨e, own_mem h₁⟩
    | deque fd e _ h₂ _ => exact .inr ⟨fd, e, own_mem h₂⟩
  | left _ _ _ _ hr => exact hr

/-- Three bytes go out at once. -/
def delivered : List Event :=
  [.accept 0, .handlePeer 0, .asyncWrite (some 0) (.file [98, 121, 101]), .handleWriteQueue true,
    .loop, .answer (.wrote 3)]

theorem promise_settled_delivered : (({} : Settling).run delivered).Right 0 := by
  refine (promise_settled delivered 0 (by decide) ?_).mpr ?_
  · rintro (⟨e, he, -⟩ | ⟨fd, e, he, -⟩)
    · cases he
    · have hnil : (({} : Settling).run delivered).system.transport.toWrite fd = [] := by
        simp [delivered, Settling.run, Settling.step, System.step, Transport.handlePeer,
          Transport.asyncWrite, Transport.handleWriteQueue, Transport.asyncWriteImpl,
          Transport.loop, Transport.send, Transport.cleanUp, System.answerOf,
          BufferHolder.ofBuffer, BufferHolder.size, BufferHolder.offset]
      rw [hnil] at he
      cases he
  · rintro (h | h | h | ⟨-, write, rest, hqueue, -, hp⟩ | h |
      ⟨fd, n, hr, ⟨hgone, -⟩ | ⟨bytes, e, wq, call, -, hto, -, -, hc, hne⟩⟩ | h)
    · exact h
    · exact h
    · exact h
    · obtain ⟨rfl, -⟩ := List.cons.inj hqueue
      exact absurd (hp 0 rfl) (by decide)
    · exact h
    · cases hr
      exact absurd hgone (by decide)
    · cases hr
      cases hto
      cases hc
      exact hne rfl
    · exact h

/-- A peer disconnects between the call of `asyncWrite` and the pass of `handleWriteQueue`. -/
def disconnected : List Event :=
  [.accept 0, .handlePeer 0, .asyncWrite (some 0) (.file [98, 121, 101]), .removePeer 0,
    .handleWriteQueue true]

/-- Of three bytes, a socket takes one and asks to wait, and takes the others later. -/
def cut : List Event :=
  [.accept 0, .handlePeer 0,
    .asyncWrite (some 0) (.raw ⟨[98, 121, 101], 3, Nat.le_refl 3⟩), .handleWriteQueue true,
    .loop, .answer (.wrote 1), .answer .again, .writable 0, .loop, .answer (.wrote 2)]

/-- The promise of the first write is never settled; that of the second is resolved with two. -/
theorem disconnected_unsettled :
    (0 < (({} : Settling).run disconnected).system.calls.length ∧
      ¬ (({} : Settling).run disconnected).Waits 0 ∧
      (({} : Settling).run disconnected).outcomes 0 = [] ∧
      ¬ (({} : Settling).run disconnected).Right 0) ∧
    (({} : Settling).run cut).outcomes 0 = [.resolved 2] ∧
      (({} : Settling).run cut).sentOf 0 = [98, 121, 101] ∧
      ¬ (({} : Settling).run cut).Right 0 := by
  refine ⟨⟨by decide, ?_, by decide, Settling.not_right (by decide)⟩, by decide, by decide, ?_⟩
  · rintro (⟨e, he, -⟩ | ⟨fd, e, he, -⟩)
    · cases he
    · cases he
  · rintro ⟨call, hc, ⟨ho, -⟩ | ⟨ho, -⟩⟩
    · obtain rfl := Option.some.inj hc
      revert ho
      decide
    · revert ho
      decide

end Pistache.Tcp
