import Pistache.Tcp.Settling

/-!
# One event and one promise

What an event does to the entry of a promise: it keeps it where it is or moves it, it settles the
promise as it should be, or it loses the entry.

* `Status.asyncWrite`, `Status.handleWriteQueue`, `Status.closeFd`, `Status.answer` — the events
  that touch the queues.
-/

set_option autoImplicit false

namespace Pistache.Tcp

namespace Settling

variable {d : Nat} {s : Settling} {t t' : Transport} {fd : Fd}

/-! ## One event -/

/-- An event that changes neither what is settled nor what is sent, and keeps the entry of the
promise where it is or moves it. -/
theorem Status.quiet {lost : Prop} (h : Status d s lost) {s' : Settling}
    (hcalls : s'.system.calls = s.system.calls) (hsettled : s'.settled = s.settled)
    (hsent : s'.system.sent = s.system.sent)
    (hplace : ∀ o, Place d s.system.transport o → Place d s'.system.transport o) :
    Status d s' lost := by
  have ho : s'.outcomes d = s.outcomes d := by rw [outcomes, hsettled]; rfl
  have hs : s'.sentOf d = s.sentOf d := by rw [sentOf, hsent]; rfl
  cases h with
  | unissued hd hl => exact .unissued (by rw [hcalls]; exact hd) hl
  | waiting call left hc hp hb hn hout hl =>
    exact .waiting call left (by rw [hcalls]; exact hc) (hplace _ hp) (by rw [hs]; exact hb) hn
      (ho.trans hout) hl
  | left call hc hp hpart hr =>
    exact .left call (by rw [hcalls]; exact hc) (hplace _ hp) (hpart.congr ho hs)
      ((Right.congr (by rw [hcalls]) ho hs).trans hr)

/-- The entry of the promise is taken away and the promise is not settled. -/
theorem Status.drop {lost : Prop} (h : Status d s lost) {s' : Settling}
    (hcalls : s'.system.calls = s.system.calls) (ho : s'.outcomes d = s.outcomes d)
    (hs : s'.sentOf d = s.sentOf d) {left : Bytes}
    (hplace : Place d s.system.transport (some left))
    (hplace' : Place d s'.system.transport none) (hsane : Sane s) {loses : Prop} (hloses : loses) :
    Status d s' (lost ∨ loses) := by
  cases h with
  | unissued hd' _ =>
    cases hplace with
    | queue e h₁ _ =>
      obtain ⟨hmem, rfl⟩ := own_mem h₁
      exact absurd (hsane.queue e hmem).1 (by omega)
    | deque fd e _ h₂ _ =>
      obtain ⟨hmem, rfl⟩ := own_mem h₂
      exact absurd (hsane.deque fd e hmem).1 (by omega)
  | waiting call left' hc _ hb _ hout _ =>
    refine .left call (by rw [hcalls]; exact hc) hplace' ?_ ?_
    · have hpart : s.Part d call := part_of_append left' hb (by rw [hout]; exact fun _ => List.not_mem_nil)
      exact hpart.congr ho hs
    · exact iff_of_false (not_right (ho.trans hout)) fun hn => hn (.inr hloses)
  | left _ _ hp _ _ =>
    obtain ⟨h₁, h₂⟩ := hp.not_mem
    cases hplace with
    | queue e h _ => exact absurd (own_mem h).2 (h₁ e (own_mem h).1)
    | deque fd e _ h _ => exact absurd (own_mem h).2 (h₂ fd e (own_mem h).1)

theorem Status.or_not {lost loses : Prop} (h : Status d s lost) (hno : ¬ loses) :
    Status d s (lost ∨ loses) := by
  have : (lost ∨ loses) = lost := propext ⟨fun h => h.resolve_right hno, .inl⟩
  rwa [this]

theorem step_settled {event : Event} (h : ∀ a, event ≠ .answer a) :
    (s.step event).settled = s.settled := by
  unfold step
  split
  · exact absurd rfl (h _)
  · exact List.append_nil _

theorem Status.asyncWrite {lost : Prop} (hsane : Sane s) (h : Status d s lost) (fd : Option Fd)
    (buffer : Buffer) : Status d (s.step (.asyncWrite fd buffer)) lost := by
  have hsettled : (s.step (.asyncWrite fd buffer)).settled = s.settled :=
    step_settled fun a => Event.noConfusion
  have ho : (s.step (.asyncWrite fd buffer)).outcomes d = s.outcomes d := by
    rw [outcomes, hsettled]
    rfl
  have hs : (s.step (.asyncWrite fd buffer)).sentOf d = s.sentOf d := rfl
  have hcalls : (s.step (.asyncWrite fd buffer)).system.calls =
      s.system.calls ++ [⟨fd, buffer, fd.bind s.system.owner⟩] := rfl
  have hqueue : (s.step (.asyncWrite fd buffer)).system.transport.writesQueue =
      s.system.transport.writesQueue ++ [⟨s.system.calls.length, .ofBuffer buffer, fd⟩] := rfl
  have hold : ∀ o, d < s.system.calls.length → Place d s.system.transport o →
      Place d (s.step (.asyncWrite fd buffer)).system.transport o := by
    intro o hd hp
    refine hp.congr ?_ (fun fd => rfl) fun fd e he => rfl
    rw [hqueue, own_append, own_cons_of_ne d (by simp only; omega)]
    exact List.append_nil _
  cases h with
  | unissued hd hl =>
    by_cases hnew : d = s.system.calls.length
    · have hnone : s.outcomes d = [] ∧ s.sentOf d = [] := by
        constructor
        · rw [outcomes, List.filter_eq_nil_iff.mpr, List.map_nil]
          intro x hx
          have := hsane.settled x hx
          simp only [decide_eq_true_eq]
          omega
        · rw [sentOf, List.filter_eq_nil_iff.mpr, List.map_nil, List.flatten_nil]
          intro x hx
          have := hsane.sent x hx
          simp only [decide_eq_true_eq]
          omega
      refine .waiting ⟨fd, buffer, fd.bind s.system.owner⟩ buffer.bytes ?_ ?_ ?_ id
        (ho.trans hnone.1) hl
      · rw [hcalls, hnew]
        simp
      · rw [← BufferHolder.ofBuffer_rest buffer]
        refine .queue ⟨s.system.calls.length, .ofBuffer buffer, fd⟩ ?_ fun fd' => ?_
        · rw [hqueue, own_append, (own_eq_nil d).mpr fun e he => ?_,
            own_cons_self d hnew.symm]
          · rfl
          · have := (hsane.queue e he).1
            omega
        · refine (own_eq_nil d).mpr fun e he => ?_
          have := (hsane.deque fd' e he).1
          omega
      · rw [hs, hnone.2]
        rfl
    · refine .unissued ?_ hl
      rw [hcalls, List.length_append, List.length_singleton]
      omega
  | waiting call left hc hp hb hn hout hl =>
    obtain ⟨hd, -⟩ := List.getElem?_eq_some_iff.mp hc
    exact .waiting call left (by rw [hcalls, List.getElem?_append_left hd, hc]) (hold _ hd hp) hb hn
      (ho.trans hout) hl
  | left call hc hp hpart hr =>
    obtain ⟨hd, -⟩ := List.getElem?_eq_some_iff.mp hc
    refine .left call (by rw [hcalls, List.getElem?_append_left hd, hc]) (hold _ hd hp)
      (hpart.congr ho hs) ?_
    rw [Right.congr (by rw [hcalls, List.getElem?_append_left hd]) ho hs]
    exact hr

theorem Status.handleWriteQueue {lost : Prop} (hsane : Sane s) (h : Status d s lost)
    (flush : Bool) : Status d (s.step (.handleWriteQueue flush))
      (lost ∨ s.system.Loses d (.handleWriteQueue flush)) := by
  have hsettled : (s.step (.handleWriteQueue flush)).settled = s.settled :=
    step_settled fun a => Event.noConfusion
  by_cases hno : s.system.transport.running = .no
  · have hsystem : (s.step (.handleWriteQueue flush)).system =
        { s.system with transport := s.system.transport.handleWriteQueue flush } := by
      simp only [step, System.step, if_pos hno]
    have hquiet : ∀ fd n, s.system.transport.running ≠ .inner fd n := by simp [hno]
    have hcalls : (s.step (.handleWriteQueue flush)).system.calls = s.system.calls := by
      rw [hsystem]
    have hsent : (s.step (.handleWriteQueue flush)).system.sent = s.system.sent := by rw [hsystem]
    rcases s.system.transport.handleWriteQueue_cases flush with ⟨hnil, he⟩ |
      ⟨write, rest, hqueue, ⟨hdrop, he⟩ | ⟨fd, hfd, hp, he⟩⟩
    · refine Status.or_not (h.quiet hcalls hsettled hsent fun o hp => ?_) ?_
      · rw [hsystem, he]
        exact hp
      · rintro ⟨-, write, rest, hqueue, -⟩
        rw [hnil] at hqueue
        cases hqueue
    · by_cases hd : write.deferred = d
      · -- the write is for no connected peer
        have hone : own d s.system.transport.writesQueue = [write] ∧
            ∀ fd, own d (s.system.transport.toWrite fd) = [] := by
          have hin : write ∈ own d s.system.transport.writesQueue := by
            rw [hqueue, own_cons_self d hd]
            exact List.mem_cons_self
          cases h with
          | unissued hlt _ =>
            have := (hsane.queue write (by rw [hqueue]; exact List.mem_cons_self)).1
            omega
          | waiting call left _ hpl _ _ _ _ =>
            cases hpl with
            | queue e h₁ h₂ =>
              rw [h₁] at hin
              obtain rfl := List.mem_singleton.mp hin
              exact ⟨h₁, h₂⟩
            | deque fd e h₁ _ _ =>
              rw [h₁] at hin
              cases hin
          | left _ _ hpl _ _ =>
            cases hpl with
            | gone h₁ _ =>
              rw [h₁] at hin
              cases hin
        refine h.drop hcalls (by rw [outcomes, hsettled]; rfl) (by rw [sentOf, hsent]; rfl)
          (.queue write hone.1 hone.2) ?_ hsane
          ⟨hno, write, rest, hqueue, hd, hdrop⟩
        rw [hsystem, he]
        have hrest := hone.1
        rw [hqueue, own_cons_self d hd] at hrest
        exact .gone (List.cons.inj hrest).2 hone.2
      · refine Status.or_not (h.quiet hcalls hsettled hsent fun o hp => ?_) ?_
        · rw [hsystem, he]
          refine hp.quiet ?_ (fun fd => rfl) hquiet hquiet
          rw [hqueue, own_cons_of_ne d hd]
        · rintro ⟨-, write', rest', hqueue', hd', -⟩
          rw [hqueue] at hqueue'
          obtain ⟨rfl, -⟩ := List.cons.inj hqueue'
          exact hd hd'
    · have hquiet' : ∀ (fd' : Fd) n, ({ s.system.transport with
          writesQueue := rest
          toWrite := Function.update s.system.transport.toWrite fd
            (s.system.transport.toWrite fd ++ [write])
          running := if flush then .top fd else s.system.transport.running } :
            Transport).running ≠ .inner fd' n := by
        intro fd' n
        cases flush <;> simp [hno]
      refine Status.or_not (h.quiet hcalls hsettled hsent fun o hpl => ?_) ?_
      · rw [hsystem, he]
        by_cases hd : write.deferred = d
        · cases hpl with
          | queue e h₁ h₂ =>
            rw [hqueue, own_cons_self d hd] at h₁
            obtain ⟨rfl, hrest⟩ := List.cons.inj h₁
            rw [← remaining_of_not_inner (fun n => hquiet' fd n) write]
            refine .deque fd write hrest ?_ fun fd' hne => ?_
            · simp only [Function.update_self]
              rw [own_append, h₂, own_cons_self d hd]
              rfl
            · simp only [Function.update_of_ne hne]
              exact h₂ fd'
          | deque fd' e h₁ _ _ =>
            rw [hqueue, own_cons_self d hd] at h₁
            cases h₁
          | gone h₁ _ =>
            rw [hqueue, own_cons_self d hd] at h₁
            cases h₁
        · refine hpl.quiet ?_ (fun fd' => ?_) hquiet hquiet'
          · rw [hqueue, own_cons_of_ne d hd]
          · by_cases hfd' : fd' = fd
            · subst hfd'
              simp only [Function.update_self]
              rw [own_append, own_cons_of_ne d hd]
              exact List.append_nil _
            · simp only [Function.update_of_ne hfd']
      · rintro ⟨-, write', rest', hqueue', -, hpeers⟩
        rw [hqueue] at hqueue'
        obtain ⟨rfl, -⟩ := List.cons.inj hqueue'
        exact hp (hpeers fd hfd)
  · refine Status.or_not ?_ fun hl => hno hl.1
    have hsystem : (s.step (.handleWriteQueue flush)).system = s.system := by
      simp only [step, System.step, if_neg hno]
    exact h.quiet (by rw [hsystem]) hsettled (by rw [hsystem]) fun o hp => by rw [hsystem]; exact hp

theorem Status.closeFd {lost : Prop} (hsane : Sane s) (h : Status d s lost) (fd : Fd) :
    Status d (s.step (.closeFd fd)) (lost ∨ s.system.Loses d (.closeFd fd)) := by
  have hsettled : (s.step (.closeFd fd)).settled = s.settled :=
    step_settled fun a => Event.noConfusion
  by_cases hquiet : ∀ fd' n, s.system.transport.running ≠ .inner fd' n
  · have hsystem : (s.step (.closeFd fd)).system = { s.system with
        transport := s.system.transport.closeFd fd
        owner := Function.update s.system.owner fd none } := by
      change System.step s.system (.closeFd fd) = _
      unfold System.step
      dsimp only
      split
      · rename_i fd' n hrunning
        exact absurd hrunning (hquiet fd' n)
      · rfl
    have hcalls : (s.step (.closeFd fd)).system.calls = s.system.calls := by rw [hsystem]
    have hsent : (s.step (.closeFd fd)).system.sent = s.system.sent := by rw [hsystem]
    by_cases hin : ∃ e ∈ s.system.transport.toWrite fd, e.deferred = d
    · obtain ⟨e, he, hd⟩ := hin
      have hown : e ∈ own d (s.system.transport.toWrite fd) :=
        List.mem_filter.mpr ⟨he, by simpa using hd⟩
      have hplace : own d s.system.transport.writesQueue = [] ∧
          Place d s.system.transport (some (remaining s.system.transport fd e)) ∧
          ∀ fd', fd' ≠ fd → own d (s.system.transport.toWrite fd') = [] := by
        cases h with
        | unissued hlt _ =>
          have := (hsane.deque fd e he).1
          omega
        | waiting call left _ hp _ _ _ _ =>
          cases hp with
          | queue e' _ h₂ =>
            rw [h₂ fd] at hown
            cases hown
          | deque fd' e' h₁ h₂ h₃ =>
            by_cases hfd : fd' = fd
            · subst hfd
              rw [h₂] at hown
              obtain rfl := List.mem_singleton.mp hown
              exact ⟨h₁, .deque fd' e h₁ h₂ h₃, h₃⟩
            · rw [h₃ fd (Ne.symm hfd)] at hown
              cases hown
        | left _ _ hp _ _ => exact absurd hd (hp.not_mem.2 fd e he)
      refine h.drop hcalls (by rw [outcomes, hsettled]; rfl) (by rw [sentOf, hsent]; rfl)
        hplace.2.1 ?_ hsane
        ⟨hquiet, e, he, hd⟩
      rw [hsystem]
      refine .gone hplace.1 fun fd' => ?_
      by_cases hfd : fd' = fd
      · subst hfd
        simp only [Transport.closeFd, Function.update_self]
        rfl
      · simp only [Transport.closeFd, Function.update_of_ne hfd]
        exact hplace.2.2 fd' hfd
    · refine Status.or_not (h.quiet hcalls hsettled hsent fun o hp => ?_) fun hl => hin hl.2
      rw [hsystem]
      refine hp.quiet rfl (fun fd' => ?_) hquiet hquiet
      by_cases hfd : fd' = fd
      · subst hfd
        simp only [Transport.closeFd, Function.update_self]
        exact ((own_eq_nil d).mpr fun e he hd => hin ⟨e, he, hd⟩).symm
      · simp only [Transport.closeFd, Function.update_of_ne hfd]
  · refine Status.or_not ?_ fun hl => hquiet hl.1
    have hsystem : (s.step (.closeFd fd)).system = s.system := by
      simp only [step, System.step]
      split
      · rfl
      · rename_i hnot
        exact absurd (fun fd' n hr => hnot fd' n hr) hquiet
    exact h.quiet (by rw [hsystem]) hsettled (by rw [hsystem]) fun o hp => by rw [hsystem]; exact hp

/-- The event of an answer, while the front entry of a deque is being sent. -/
theorem step_answer {fd : Fd} {n : Nat} (a : Answer)
    (hrunning : s.system.transport.running = .inner fd n) {e : WriteEntry} {wq : List WriteEntry}
    (hto : s.system.transport.toWrite fd = e :: wq) :
    s.step (.answer a) =
      { system := { s.system with
          transport := (s.system.transport.send fd n (s.system.answerOf fd a)).2
          sent := s.system.sent ++ [⟨fd, e.deferred, s.system.owner fd,
            (s.system.transport.send fd n (s.system.answerOf fd a)).1⟩] }
        settled := s.settled ++ s.system.transport.settle fd n (s.system.answerOf fd a) } := by
  simp only [step, System.step, hrunning, System.frontDeferred, hto]

/-- What an answer settles is the promise of the front entry. -/
theorem settle_deferred {fd : Fd} {n : Nat} {a : Answer} {e : WriteEntry} {wq : List WriteEntry}
    (hto : t.toWrite fd = e :: wq) : ∀ x ∈ t.settle fd n a, x.1 = e.deferred := by
  intro x hx
  simp only [Transport.settle, hto] at hx
  cases a with
  | wrote bytes =>
    dsimp only at hx
    split at hx
    · obtain rfl := List.mem_singleton.mp hx
      rfl
    · cases hx
  | again => cases hx
  | gone => cases hx
  | failed =>
    obtain rfl := List.mem_singleton.mp hx
    rfl

/-- An answer about another promise: nothing is lost but by a connection that is gone. -/
theorem place_send {fd : Fd} {n : Nat} {a : Answer} {e : WriteEntry} {wq : List WriteEntry}
    (hrunning : t.running = .inner fd n) (hto : t.toWrite fd = e :: wq) (hne : e.deferred ≠ d)
    (hn : n ≤ e.buffer.size) (hgone : a = .gone → own d wq = []) {o : Option Bytes}
    (h : Place d t o) : Place d (t.send fd n a).2 o := by
  have hown : own d (t.toWrite fd) = own d wq := by rw [hto, own_cons_of_ne d hne]
  have hbefore : ∀ fd', ∀ e' ∈ own d (t.toWrite fd'), remaining t fd' e' = e'.buffer.rest := by
    intro fd' e' he'
    by_cases hfd : fd' = fd
    · subst hfd
      have hd' : e'.deferred = d := by simpa using (List.mem_filter.mp he').2
      exact remaining_behind hrunning hto (by rw [hd']; exact hne)
    · refine remaining_of_not_inner (fun m hm => ?_) e'
      rw [hrunning] at hm
      exact hfd (Running.inner.inj hm).1.symm
  -- the deque of this file descriptor is replaced by one with the same entries of the promise
  have hupdate : ∀ (l : List WriteEntry) (running : Running), own d l = own d wq →
      (∀ fd' m, running ≠ .inner fd' m) → Place d { t with
        toWrite := Function.update t.toWrite fd l
        running := running } o := by
    intro l running hl hno
    refine h.congr rfl (fun fd' => ?_) fun fd' e' he' => ?_
    · by_cases hfd : fd' = fd
      · subst hfd
        simp only [Function.update_self]
        rw [hl, hown]
      · simp only [Function.update_of_ne hfd]
    · rw [hbefore fd' e' he', remaining_of_not_inner (hno fd')]
  unfold Transport.send
  rw [hto]
  cases a with
  | wrote bytes =>
    dsimp only
    split
    · exact hupdate wq _ rfl (t.running_cleanUp fd wq)
    · refine h.congr rfl (fun fd' => rfl) fun fd' e' he' => ?_
      rw [hbefore fd' e' he']
      by_cases hfd : fd' = fd
      · subst hfd
        have hd' : e'.deferred = d := by simpa using (List.mem_filter.mp he').2
        exact remaining_behind rfl hto (by rw [hd']; exact hne)
      · refine remaining_of_not_inner (fun m hm => ?_) e'
        exact hfd (Running.inner.inj hm).1.symm
  | again =>
    obtain ⟨buffer, hdetach, -, -⟩ := BufferHolder.detach_eq hn
    dsimp only
    rw [hdetach]
    exact hupdate (⟨e.deferred, buffer, some fd⟩ :: wq) _
      (own_cons_of_ne d (e := ⟨e.deferred, buffer, some fd⟩) hne wq) fun _ _ => Running.noConfusion
  | gone => exact hupdate [] _ (hgone rfl).symm fun _ _ => Running.noConfusion
  | failed => exact hupdate wq _ rfl (t.running_cleanUp fd wq)

/-- An answer about the promise whose entry is being sent. -/
theorem Status.front {lost : Prop} {fd : Fd} {n : Nat} {e : WriteEntry} {wq : List WriteEntry}
    {call : Call} (hrunning : s.system.transport.running = .inner fd n)
    (hto : s.system.transport.toWrite fd = e :: wq) (hd : e.deferred = d) (hn : n ≤ e.buffer.size)
    (hc : s.system.calls[d]? = some call) (hqueue : own d s.system.transport.writesQueue = [])
    (hwq : own d wq = []) (hother : ∀ fd', fd' ≠ fd → own d (s.system.transport.toWrite fd') = [])
    (hb : s.sentOf d ++ e.buffer.bytes.drop n = call.buffer.bytes)
    (hne : call.buffer.bytes ≠ [] → e.buffer.bytes.drop n ≠ []) (hout : s.outcomes d = [])
    (hl : ¬ lost) (a : Answer) :
    Status d
      { system := { s.system with
          transport := (s.system.transport.send fd n a).2
          sent := s.system.sent ++ [⟨fd, e.deferred, s.system.owner fd,
            (s.system.transport.send fd n a).1⟩] }
        settled := s.settled ++ s.system.transport.settle fd n a }
      (lost ∨ (a = .gone ∨ ∃ bytes, a = .wrote bytes ∧ n + bytes ≥ e.buffer.size ∧
        e.buffer.size ≠ call.buffer.bytes.length)) := by
  have hlen := e.buffer.bytes_length
  have hdlt := (List.getElem?_eq_some_iff.mp hc).1
  -- the entry is taken from the deque
  have hgone : ∀ wq', own d wq' = [] → ∀ running, Place d { s.system.transport with
      toWrite := Function.update s.system.transport.toWrite fd wq', running } none := by
    refine fun wq' hwq' running => .gone hqueue fun fd' => ?_
    by_cases hfd : fd' = fd
    · subst hfd
      simp only [Function.update_self]
      exact hwq'
    · simp only [Function.update_of_ne hfd]
      exact hother fd' hfd
  subst hd
  have hsentOf : ∀ (bytes : Bytes) (transport : Transport) (settled : List (Nat × Outcome)),
      ({ system := { s.system with
          transport
          sent := s.system.sent ++ [⟨fd, e.deferred, s.system.owner fd, bytes⟩] }
         settled } : Settling).sentOf e.deferred = s.sentOf e.deferred ++ bytes :=
    fun bytes _ settled => sentOf_append_self ⟨fd, e.deferred, s.system.owner fd, bytes⟩ rfl settled rfl
  cases a with
  | wrote bytes =>
    simp only [Transport.send, hto, Transport.settle]
    by_cases hdone : n + min bytes (e.buffer.size - n) ≥ e.buffer.size
    · -- all of the entry has been sent
      have hsize : n + min bytes (e.buffer.size - n) = e.buffer.size := by omega
      have hrest : (e.buffer.bytes.drop n).take (min bytes (e.buffer.size - n)) =
          e.buffer.bytes.drop n := List.take_of_length_le (by rw [List.length_drop]; omega)
      rw [if_pos hdone, if_pos hdone, hrest, hsize]
      refine .left call hc (hgone wq hwq _) ?_ ?_
      · unfold Part
        rw [hsentOf, hb]
        exact ⟨List.prefix_refl _, fun _ _ => rfl⟩
      have hfull : (¬ (lost ∨ (Answer.wrote bytes = .gone ∨ ∃ bytes', Answer.wrote bytes =
          .wrote bytes' ∧ n + bytes' ≥ e.buffer.size ∧
            e.buffer.size ≠ call.buffer.bytes.length))) ↔
          e.buffer.size = call.buffer.bytes.length := by
        constructor
        · intro h
          by_contra hsz
          exact h (.inr (.inr ⟨bytes, rfl, by omega, hsz⟩))
        · rintro hsz (h | h | ⟨_, _, _, h⟩)
          · exact hl h
          · cases h
          · exact h hsz
      rw [hfull]
      constructor
      · rintro ⟨call', hc', ⟨ho, -⟩ | ⟨ho, -⟩⟩
        · obtain rfl := Option.some.inj (hc.symm.trans hc')
          rw [outcomes_append_self, hout] at ho
          exact Outcome.resolved.inj (List.cons.inj ho).1
        · rw [outcomes_append_self, hout] at ho
          cases ho
      · intro hsz
        refine ⟨call, hc, .inl ⟨?_, ?_⟩⟩
        · rw [outcomes_append_self, hout, hsz]
          rfl
        · rw [hsentOf]
          exact hb
    · -- a part of it has been sent
      rw [if_neg hdone, if_neg hdone, List.append_nil]
      have hsplit : (e.buffer.bytes.drop n).take (min bytes (e.buffer.size - n)) ++
          e.buffer.bytes.drop (n + min bytes (e.buffer.size - n)) = e.buffer.bytes.drop n := by
        rw [← List.drop_drop, List.take_append_drop]
      refine Status.or_not ?_ ?_
      · refine .waiting call (e.buffer.bytes.drop (n + min bytes (e.buffer.size - n))) hc ?_ ?_
          (fun _ h => ?_) hout hl
        · have hleft : remaining ({ s.system.transport with
              running := .inner fd (n + min bytes (e.buffer.size - n)) }) fd e =
              e.buffer.bytes.drop (n + min bytes (e.buffer.size - n)) := remaining_front rfl hto
          rw [← hleft]
          refine .deque fd e hqueue ?_ hother
          rw [hto, own_cons_self _ rfl, hwq]
        · rw [hsentOf, List.append_assoc, hsplit]
          exact hb
        · have := congrArg List.length h
          rw [List.length_drop, List.length_nil] at this
          omega
      · rintro (h | ⟨bytes', h, hge, -⟩)
        · cases h
        · cases h
          omega
  | again =>
    obtain ⟨buffer, hdetach, hrest, -⟩ := BufferHolder.detach_eq hn
    simp only [Transport.send, hto, hdetach, Transport.settle, List.append_nil]
    refine Status.or_not ?_ (by rintro (h | ⟨_, h, _⟩) <;> cases h)
    refine .waiting call (e.buffer.bytes.drop n) hc ?_ ?_ hne hout hl
    · have hleft : remaining { s.system.transport with
          toWrite := Function.update s.system.transport.toWrite fd
            (⟨e.deferred, buffer, some fd⟩ :: wq)
          running := .no } fd ⟨e.deferred, buffer, some fd⟩ = buffer.rest :=
        remaining_of_not_inner (fun _ => Running.noConfusion) _
      rw [← hrest, ← hleft]
      refine .deque fd _ hqueue ?_ fun fd' hfd => ?_
      · simp only [Function.update_self]
        rw [own_cons_self e.deferred (e := ⟨e.deferred, buffer, some fd⟩) rfl, hwq]
      · simp only [Function.update_of_ne hfd]
        exact hother fd' hfd
    · rw [hsentOf, List.append_nil]
      exact hb
  | gone =>
    simp only [Transport.send, hto, Transport.settle, List.append_nil]
    refine .left call hc (hgone [] rfl _) ?_ ?_
    · refine part_of_append (e.buffer.bytes.drop n) ?_ ?_
      · rw [hsentOf, List.append_nil]
        exact hb
      · intro m hm
        have hm' : .resolved m ∈ s.outcomes e.deferred := hm
        rw [hout] at hm'
        cases hm'
    refine iff_of_false (not_right hout) fun h => h (.inr (.inl trivial))
  | failed =>
    simp only [Transport.send, hto, Transport.settle]
    refine Status.or_not ?_ (by rintro (h | ⟨_, h, _⟩) <;> cases h)
    refine .left call hc (hgone wq hwq _) ?_
      (iff_of_true ⟨call, hc, .inr ⟨?_, fun hbytes hsent => ?_⟩⟩ hl)
    · refine part_of_append (e.buffer.bytes.drop n) ?_ ?_
      · rw [hsentOf, List.append_nil]
        exact hb
      · rw [outcomes_append_self, hout]
        exact fun m hm => Outcome.noConfusion (List.mem_singleton.mp hm)
    · rw [outcomes_append_self, hout]
      rfl
    · rw [hsentOf, List.append_nil] at hsent
      rw [hsent] at hb
      exact hne hbytes (List.append_right_eq_self.mp hb)

/-- **An answer of a socket.** -/
theorem Status.answer {lost : Prop} (hsane : Sane s) (h : Status d s lost) (a : Answer) :
    Status d (s.step (.answer a)) (lost ∨ s.system.Loses d (.answer a)) := by
  have hidle : (∀ fd n, s.system.transport.running ≠ .inner fd n) →
      Status d (s.step (.answer a)) (lost ∨ s.system.Loses d (.answer a)) := by
    intro hno
    refine Status.or_not ?_ fun ⟨fd, n, hr, _⟩ => hno fd n hr
    have hstep : s.step (.answer a) = s := by
      cases hrunning : s.system.transport.running with
      | inner fd n => exact absurd hrunning (hno fd n)
      | no => simp [step, System.step, hrunning]
      | top fd => simp [step, System.step, hrunning]
    rw [hstep]
    exact h
  cases hrunning : s.system.transport.running with
  | no => exact hidle (by simp [hrunning])
  | top fd => exact hidle (by simp [hrunning])
  | inner fd n =>
    obtain ⟨e, wq, hto, hn⟩ := hsane.inner fd n hrunning
    have hloses : s.system.Loses d (.answer a) ↔
        (s.system.answerOf fd a = .gone ∧ ∃ e' ∈ e :: wq, e'.deferred = d) ∨
          ∃ bytes call, s.system.answerOf fd a = .wrote bytes ∧ e.deferred = d ∧
            n + bytes ≥ e.buffer.size ∧ s.system.calls[d]? = some call ∧
            e.buffer.size ≠ call.buffer.bytes.length := by
      constructor
      · rintro ⟨fd', n', hr, hl⟩
        obtain ⟨rfl, rfl⟩ := Running.inner.inj (hrunning.symm.trans hr)
        rw [hto] at hl
        rcases hl with hl | ⟨bytes, e', wq', call, h₁, h₂, h₃⟩
        · exact .inl hl
        · obtain ⟨rfl, -⟩ := List.cons.inj h₂
          exact .inr ⟨bytes, call, h₁, h₃⟩
      · rintro (hl | ⟨bytes, call, h₁, h₃⟩)
        · exact ⟨fd, n, hrunning, .inl (by rw [hto]; exact hl)⟩
        · exact ⟨fd, n, hrunning, .inr ⟨bytes, e, wq, call, h₁, hto, h₃⟩⟩
    rw [propext hloses, step_answer a hrunning hto]
    generalize s.system.answerOf fd a = answer
    by_cases hd : e.deferred = d
    · -- the entry of the promise is being sent
      have hown : own d (s.system.transport.toWrite fd) = e :: own d wq := by
        rw [hto, own_cons_self d hd]
      cases h with
      | unissued hlt _ =>
        have := (hsane.deque fd e (by rw [hto]; exact List.mem_cons_self)).1
        omega
      | left _ _ hp _ _ =>
        exact absurd hd (hp.not_mem.2 fd e (by rw [hto]; exact List.mem_cons_self))
      | waiting call left hc hp hb hne hout hl =>
        cases hp with
        | queue e' _ h₂ =>
          rw [h₂ fd] at hown
          cases hown
        | deque fd' e' h₁ h₂ h₃ =>
          have hfd : fd' = fd := by
            by_contra hne'
            rw [h₃ fd (fun h => hne' h.symm)] at hown
            cases hown
          subst hfd
          rw [h₂] at hown
          obtain ⟨rfl, hwq⟩ := List.cons.inj hown
          rw [remaining_front hrunning hto] at hb hne
          have hfront := Status.front hrunning hto hd hn hc h₁ hwq.symm h₃ hb hne hout hl answer
          refine (congrArg (Status d _) (propext (or_congr Iff.rfl (or_congr ?_ ?_)))).mp hfront
          · exact ⟨fun h => ⟨h, e', List.mem_cons_self, hd⟩, fun h => h.1⟩
          · constructor
            · rintro ⟨bytes, h, hge, hsz⟩
              exact ⟨bytes, call, h, hd, hge, hc, hsz⟩
            · rintro ⟨bytes, call', h, -, hge, hc', hsz⟩
              obtain rfl := Option.some.inj (hc.symm.trans hc')
              exact ⟨bytes, h, hge, hsz⟩
    · -- another entry is being sent
      obtain ⟨s', hs'⟩ : ∃ s' : Settling, s' =
          { system := { s.system with
              transport := (s.system.transport.send fd n answer).2
              sent := s.system.sent ++ [⟨fd, e.deferred, s.system.owner fd,
                (s.system.transport.send fd n answer).1⟩] }
            settled := s.settled ++ s.system.transport.settle fd n answer } := ⟨_, rfl⟩
      rw [← hs']
      have hcalls : s'.system.calls = s.system.calls := by rw [hs']
      have htransport : s'.system.transport = (s.system.transport.send fd n answer).2 := by rw [hs']
      have ho : s'.outcomes d = s.outcomes d := by
        rw [hs']
        exact outcomes_append _ (fun x hx => by rw [settle_deferred hto x hx]; exact hd) _
      have hs : s'.sentOf d = s.sentOf d := by
        rw [hs']
        exact sentOf_append ⟨fd, e.deferred, s.system.owner fd, _⟩ hd _ rfl
      by_cases hlost : answer = .gone ∧ own d wq ≠ []
      · -- it waits behind, and the connection is gone
        obtain ⟨rfl, hwq⟩ := hlost
        obtain ⟨e', he'⟩ := List.exists_mem_of_ne_nil _ hwq
        obtain ⟨hmem, hd'⟩ := List.mem_filter.mp he'
        have hd' : e'.deferred = d := by simpa using hd'
        have hown : own d (s.system.transport.toWrite fd) = own d wq := by
          rw [hto, own_cons_of_ne d hd]
        have hfacts : own d s.system.transport.writesQueue = [] ∧
            (∀ fd', fd' ≠ fd → own d (s.system.transport.toWrite fd') = []) ∧
            Place d s.system.transport (some (remaining s.system.transport fd e')) := by
          have hin : e' ∈ own d (s.system.transport.toWrite fd) := by rw [hown]; exact he'
          cases h with
          | unissued hlt _ =>
            have := (hsane.deque fd e' (by rw [hto]; exact List.mem_cons_of_mem _ hmem)).1
            omega
          | left _ _ hp _ _ =>
            exact absurd hd' (hp.not_mem.2 fd e' (by rw [hto]; exact List.mem_cons_of_mem _ hmem))
          | waiting call left hc hp hb hne hout hl =>
            cases hp with
            | queue e'' _ h₂ =>
              rw [h₂ fd] at hin
              cases hin
            | deque fd' e'' h₁ h₂ h₃ =>
              by_cases hfd : fd' = fd
              · subst hfd
                rw [h₂] at hin
                obtain rfl := List.mem_singleton.mp hin
                exact ⟨h₁, h₃, .deque fd' e' h₁ h₂ h₃⟩
              · rw [h₃ fd (Ne.symm hfd)] at hin
                cases hin
        refine h.drop hcalls ho hs hfacts.2.2 ?_ hsane
          (Or.inl ⟨rfl, e', List.mem_cons_of_mem _ hmem, hd'⟩)
        rw [htransport]
        simp only [Transport.send, hto]
        refine .gone hfacts.1 fun fd' => ?_
        by_cases hfd : fd' = fd
        · subst hfd
          simp only [Function.update_self]
          rfl
        · simp only [Function.update_of_ne hfd]
          exact hfacts.2.1 fd' hfd
      · have hgone : answer = .gone → own d wq = [] := fun h => by
          by_contra hwq
          exact hlost ⟨h, hwq⟩
        refine Status.or_not ?_ ?_
        · have hplace : ∀ o, Place d s.system.transport o →
              Place d s'.system.transport o := fun o hp => by
            rw [htransport]
            exact place_send hrunning hto hd hn hgone hp
          cases h with
          | unissued hlt hl => exact .unissued (by rw [hcalls]; exact hlt) hl
          | waiting call left hc hp hb hne hout hl =>
            exact .waiting call left (by rw [hcalls]; exact hc) (hplace _ hp) (by rw [hs]; exact hb)
              hne (ho.trans hout) hl
          | left call hc hp hpart hr =>
            exact .left call (by rw [hcalls]; exact hc) (hplace _ hp) (hpart.congr ho hs)
              ((Right.congr (by rw [hcalls]) ho hs).trans hr)
        · rintro (⟨h, e', he', hd'⟩ | ⟨_, _, _, hd', _⟩)
          · rcases List.mem_cons.mp he' with rfl | he'
            · exact hd hd'
            · have hin : e' ∈ own d wq := List.mem_filter.mpr ⟨he', by simpa using hd'⟩
              rw [hgone h] at hin
              cases hin
          · exact hd hd'

end Settling

end Pistache.Tcp
