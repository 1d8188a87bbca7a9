import Pistache.Ssl.SslAsync

/-!
# What a TLS client receives

The bytes that `SSL_read` gives reach the application in order.  `sslAppSend` is not to read any,
unless `SSL_write` has asked for a read; it does where `select` finds the socket readable.

* `round_asking_iff` — what a pass of `checkSocket` for `sslAppSend` reads has been asked for
  if and only if the pass is not `Swallows`.
* `receives` — what is received is the first of the bytes given, and a send reads only what has
  been asked for if and only if none of its passes is `Swallows`.
-/

set_option autoImplicit false

namespace Pistache.Ssl

/-! ## Asking -/

/-- Bytes are read only where `SSL_write` has asked for it. -/
def AskedFor : Bool → List SslCall → Prop
  | _, [] => True
  | asked, call :: calls => (call.given ≠ [] → asked = true) ∧ AskedFor (call.asked asked) calls

instance AskedFor.decidable : ∀ (asked : Bool) (calls : List SslCall),
    Decidable (AskedFor asked calls)
  | _, [] => inferInstanceAs (Decidable True)
  | asked, call :: calls =>
    have := AskedFor.decidable (call.asked asked) calls
    inferInstanceAs (Decidable (_ ∧ _))

theorem askedFor_append : ∀ (calls later : List SslCall) (before : Bool),
    AskedFor before (calls ++ later) ↔
      AskedFor before calls ∧ AskedFor (asked before calls) later
  | [], _, _ => (iff_of_eq (true_and _)).symm
  | call :: calls, later, before => by
    rw [List.cons_append, AskedFor, AskedFor, askedFor_append calls later, and_assoc]
    rfl

namespace SslAsync

variable {s s' s'' : SslAsync} {calls : List SslCall}

/-- What has been read from `s` to `s'` has been asked for. -/
def Asking (s s' : SslAsync) : Prop :=
  ∀ calls, Comes s s' calls → AskedFor s.mCallSslReadForSslLib calls

theorem Comes.asking_iff (h : Comes s s' calls) :
    Asking s s' ↔ AskedFor s.mCallSslReadForSslLib calls :=
  ⟨fun hasking => hasking calls h, fun hasked _ h' => h.unique h' ▸ hasked⟩

theorem Asking.refl (s : SslAsync) : Asking s s :=
  (Comes.still rfl rfl rfl rfl).asking_iff.mpr trivial

theorem asking_split (h : Leads s s') (h' : Leads s' s'') :
    Asking s s'' ↔ Asking s s' ∧ Asking s' s'' := by
  obtain ⟨calls, h⟩ := h
  obtain ⟨calls', h'⟩ := h'
  rw [(h.trans h').asking_iff, h.asking_iff, h'.asking_iff, askedFor_append, h.asked]

theorem asking_errno (s : SslAsync) (errno : Errno) : Asking s { s with errno } := by
  have h : Comes s { s with errno } [] := .still rfl rfl rfl rfl
  exact h.asking_iff.mpr trivial

theorem ssl_connect_asking (s : SslAsync) (answers : Answers) : Asking s (s.connect answers).1 :=
  (connect_comes s answers).asking_iff.mpr ⟨fun h => absurd rfl h, trivial⟩

theorem ssl_write_asking (s : SslAsync) (answers : Answers) :
    Asking s (s.ssl_write answers).1 := by
  rw [(ssl_write_comes s answers).asking_iff]
  split
  · trivial
  · exact ⟨fun h => absurd rfl h, trivial⟩

theorem ssl_read_asking_iff (s : SslAsync) (answers : Answers) :
    Asking s (s.ssl_read answers).1 ↔
      ((SslCall.SSL_read answers.read).given ≠ [] → s.mCallSslReadForSslLib = true) := by
  rw [(ssl_read_comes s answers).asking_iff, AskedFor, AskedFor, and_true]

/-- The socket is writable: only what has been asked for is read. -/
theorem writable_asking (_forAppRead : Bool) (answers : Answers) (s : SslAsync) :
    Asking s (writable _forAppRead answers s).1 := by
  unfold writable
  split
  · have hstill : Comes s { s with mWantsTcpWrite := false } [] := .still rfl rfl rfl rfl
    refine (asking_split ⟨_, hstill⟩ ⟨_, connect_comes _ answers⟩).mpr ⟨?_, ?_⟩
    · exact hstill.asking_iff.mpr trivial
    · exact ssl_connect_asking _ answers
  · split
    · next hasked =>
      rw [act_fst, ssl_read_asking_iff]
      exact fun _ => hasked
    · rw [actUnless_fst]
      exact ssl_write_asking s answers

theorem notReady_asking (_forAppRead write_pending : Bool) (answers : Answers) (s : SslAsync) :
    Asking s (notReady _forAppRead write_pending answers s).1 := by
  unfold notReady
  split
  · exact .refl s
  · split
    · exact .refl s
    · split
      · exact .refl s
      · rw [actUnless_fst]
        exact ssl_write_asking s answers

/-- The socket is readable. -/
theorem readable_asking_iff (_forAppRead : Bool) (answers : Answers)
    {write : SslAsync → SslAsync × Option Int} (hleads : ∀ s, Leads s (write s).1)
    (hwrite : ∀ s, Asking s (write s).1) (hconnecting : s.mConnecting = false)
    (hwriteForLib : s.mCallSslWriteForSslLib = false) :
    Asking s (readable _forAppRead answers write s).1 ↔
      ((SslCall.SSL_read answers.read).given ≠ [] → s.mCallSslReadForSslLib = true) := by
  have h := ssl_read_asking_iff s answers
  have hread : Leads s (s.ssl_read answers).1 := ⟨_, ssl_read_comes s answers⟩
  rw [readable, if_neg (by simp [hconnecting]), if_neg (by simp [hwriteForLib])]
  generalize s.ssl_read answers = out at h hread ⊢
  obtain ⟨s', action⟩ := out
  cases action with
  | CONTINUE | BREAK => exact h
  | NEITHER =>
    dsimp only
    split
    · rw [asking_split hread (hleads s'), and_iff_left (hwrite s')]
      exact h
    · exact h

/-- In this pass for `sslAppSend`, bytes are read that `SSL_write` has not asked for. -/
def Swallows (s : SslAsync) (r : Round) : Prop :=
  r.timed_out = false ∧ s.mConnecting = false ∧ s.mCallSslWriteForSslLib = false ∧
    s.mCallSslReadForSslLib = false ∧ (∃ write, r.select = some (true, write)) ∧
    (SslCall.SSL_read r.onReadable.read).given ≠ []

/-- **One pass** of `checkSocket` for `sslAppSend`. -/
theorem round_asking_iff (rounds : Nat → Round) (i : Nat) (s : SslAsync) :
    ¬Swallows s (rounds i) ↔ Asking s (round false false rounds i s).1 := by
  unfold round
  dsimp only
  by_cases htime : (rounds i).timed_out = true
  · rw [if_pos htime]
    exact iff_of_true (fun h => Bool.false_ne_true (h.1.symm.trans htime)) (asking_errno s _)
  · rw [if_neg htime]
    simp only [Bool.and_false, Bool.false_and, Bool.or_false, Bool.not_false, Bool.true_and,
      Bool.false_or, Bool.false_eq_true, if_false]
    cases hselect : (rounds i).select with
    | none =>
      refine iff_of_true (fun h => ?_) (notReady_asking false _ (rounds i).otherwise s)
      obtain ⟨write, hwrite⟩ := h.2.2.2.2.1
      cases hselect.symm.trans hwrite
    | some ready =>
      obtain ⟨read, write⟩ := ready
      dsimp only
      generalize hf : (if ((s.mConnecting || !s.mCallSslReadForSslLib) &&
          (s.mWantsTcpWrite || !s.mToWriteVec.isEmpty) && write) = true then
        writable false (rounds i).otherwise else fun s => (s, none)) = f
      have hleads : ∀ s, Leads s (f s).1 := by
        intro s'
        rw [← hf]
        split
        · exact writable_leads false (rounds i).otherwise s'
        · exact .refl s'
      have hasking : ∀ s, Asking s (f s).1 := by
        intro s'
        rw [← hf]
        split
        · exact writable_asking false (rounds i).otherwise s'
        · exact .refl s'
      by_cases hread : ((s.mConnecting || !s.mCallSslWriteForSslLib) && read) = true
      · rw [if_pos hread]
        by_cases hconnecting : s.mConnecting = true
        · rw [readable, if_pos hconnecting]
          exact iff_of_true (fun h => Bool.false_ne_true (h.2.1.symm.trans hconnecting))
            (ssl_connect_asking s _)
        · have hconnecting : s.mConnecting = false := by simpa using hconnecting
          simp only [hconnecting, Bool.false_or, Bool.and_eq_true, Bool.not_eq_true'] at hread
          obtain ⟨hforLib, rfl⟩ := hread
          rw [readable_asking_iff false _ hleads hasking hconnecting hforLib]
          have htime : (rounds i).timed_out = false := by simpa using htime
          have hready : ∃ w, (rounds i).select = some (true, w) := ⟨write, hselect⟩
          simp only [Swallows, htime, hconnecting, hforLib, hready, true_and, not_and, not_not]
          cases s.mCallSslReadForSslLib <;> simp
      · rw [if_neg hread]
        refine iff_of_true (fun h => hread ?_) (hasking s)
        obtain ⟨-, -, hforLib, -, ⟨write', hwrite⟩, -⟩ := h
        cases hselect.symm.trans hwrite
        simp [hforLib]

/-! ## Sending -/

/-- No pass of `checkSocket` is `Swallows`. -/
def Quiet (rounds : Nat → Round) (s : SslAsync) : Prop :=
  CountedLoop.Along (round false false rounds) (fun i s => ¬Swallows s (rounds i))
    MAX_LOOP_COUNT 0 { s with errno := .zero }

theorem checkSocket_asking_iff (rounds : Nat → Round) (s : SslAsync) :
    Quiet rounds s ↔ Asking s (s.checkSocket false false rounds).1 := by
  have hstart : Leads s { s with errno := .zero } := ⟨[], .still rfl rfl rfl rfl⟩
  have hrun := CountedLoop.run_rel Leads.refl Leads.trans (round_leads false false rounds)
    MAX_LOOP_COUNT 0 { s with errno := .zero }
  have hiff := CountedLoop.along_iff Leads.refl Leads.trans Asking.refl asking_split
    (round_leads false false rounds) (round_asking_iff rounds) MAX_LOOP_COUNT 0
    { s with errno := .zero }
  rw [Quiet, hiff]
  unfold checkSocket
  generalize CountedLoop.run (round false false rounds) MAX_LOOP_COUNT 0
    { s with errno := .zero } = out at hrun ⊢
  obtain ⟨s', res⟩ := out
  have hend : Asking { s with errno := .zero } s' ↔ Asking s s' := by
    rw [asking_split hstart hrun, and_iff_right (asking_errno s _)]
  rw [hend]
  cases res with
  | some res => rfl
  | none =>
    have htimed : Leads s' { s' with errno := .ETIMEDOUT } := ⟨[], .still rfl rfl rfl rfl⟩
    change _ ↔ Asking s { s' with errno := .ETIMEDOUT }
    rw [asking_split (hstart.trans hrun) htimed, and_iff_left (asking_errno s' _)]

theorem sendPass_fst (rounds : Nat → Nat → Round) (i : Nat) (p : SslAsync × Nat) :
    (sendPass rounds i p).1.1 = (p.1.checkSocket false false (rounds i)).1 := by
  unfold sendPass
  dsimp only
  split
  · rfl
  · split
    · rfl
    · split <;> rfl

/-- Where the loop of `sslAppSend` begins. -/
def queued (s : SslAsync) (_buffer : List UInt8) : SslAsync :=
  { s with mToWriteVec := s.mToWriteVec ++ _buffer }

/-- No pass of `checkSocket` in the call is `Swallows`. -/
def QuietSend (s : SslAsync) (_buffer : List UInt8) (rounds : Nat → Nat → Round) : Prop :=
  CountedLoop.Along (sendPass rounds) (fun i p => Quiet (rounds i) p.1) 256 0
    (s.queued _buffer, 0)

/-- **`sslAppSend`** leads to some state, from which it only shortens the buffer to write. -/
theorem sslAppSend_comes (s : SslAsync) (_buffer : List UInt8) (rounds : Nat → Nat → Round) :
    ∃ s', Leads (s.queued _buffer) s' ∧
      (_buffer ≠ [] → (QuietSend s _buffer rounds ↔ Asking (s.queued _buffer) s')) ∧
      (s.sslAppSend _buffer rounds).1.mSsl = s'.mSsl ∧
      (s.sslAppSend _buffer rounds).1.mReadFromVec = s'.mReadFromVec ∧
      (s.sslAppSend _buffer rounds).1.mCallSslReadForSslLib = s'.mCallSslReadForSslLib := by
  by_cases hempty : _buffer = []
  · exact ⟨s.queued _buffer, .refl _, fun h => absurd hempty h, by simp [sslAppSend, hempty, queued]⟩
  · have hlength : _buffer.length ≠ 0 := fun h => hempty (List.length_eq_zero_iff.mp h)
    have hpass : ∀ i (p : SslAsync × Nat), Leads p.1 (sendPass rounds i p).1.1 := by
      intro i p
      rw [sendPass_fst]
      exact checkSocket_comes false false (rounds i) p.1
    have hasking : ∀ i (p : SslAsync × Nat),
        Quiet (rounds i) p.1 ↔ Asking p.1 (sendPass rounds i p).1.1 := by
      intro i p
      rw [sendPass_fst]
      exact checkSocket_asking_iff (rounds i) p.1
    have htrans : ∀ {a b c : SslAsync × Nat}, Leads a.1 b.1 → Leads b.1 c.1 → Leads a.1 c.1 :=
      Leads.trans
    have hsplit : ∀ {a b c : SslAsync × Nat}, Leads a.1 b.1 → Leads b.1 c.1 →
        (Asking a.1 c.1 ↔ Asking a.1 b.1 ∧ Asking b.1 c.1) := asking_split
    have hleads := CountedLoop.run_rel (fun p => Leads.refl p.1) @htrans hpass 256 0
      (s.queued _buffer, 0)
    have hiff := CountedLoop.along_iff (fun p => Leads.refl p.1) @htrans
      (fun p => Asking.refl p.1) @hsplit hpass hasking 256 0 (s.queued _buffer, 0)
    refine ⟨_, hleads, fun _ => hiff, ?_⟩
    unfold sslAppSend queued
    rw [if_neg hlength]
    dsimp only
    generalize CountedLoop.run (sendPass rounds) 256 0
      ({ s with mToWriteVec := s.mToWriteVec ++ _buffer }, 0) = out
    obtain ⟨⟨s', total_written⟩, ended⟩ := out
    match ended with
    | some .failed | some .written => exact ⟨rfl, rfl, rfl⟩
    | some .stuck | none =>
      dsimp only
      split
      · split <;> exact ⟨rfl, rfl, rfl⟩
      · exact ⟨rfl, rfl, rfl⟩

end SslAsync

/-! ## Runs -/

namespace App

/-- What is received is the first of what `SSL_read` has given, and the flag is what the calls
say. -/
structure Received (app : App) : Prop where
  read : app.received ++ app.ssl.mReadFromVec = given app.ssl.mSsl
  asked : app.ssl.mCallSslReadForSslLib = asked false app.ssl.mSsl

/-- A send reads only what `SSL_write` has asked for. -/
def SendsAsking (app : App) : Event → Prop
  | .send _buffer rounds => ∀ calls,
    (app.step (.send _buffer rounds)).ssl.mSsl = app.ssl.mSsl ++ calls →
      AskedFor (asked false app.ssl.mSsl) calls
  | .recv .. => True

/-- No pass of `checkSocket` in a send is `Swallows`. -/
def Quiet (app : App) : Event → Prop
  | .send _buffer rounds =>
    app.offer _buffer = [] ∨ app.ssl.QuietSend (app.offer _buffer) rounds
  | .recv .. => True

variable {app : App}

theorem step_send_ssl (app : App) (_buffer : List UInt8) (rounds : Nat → Nat → Round) :
    (app.step (.send _buffer rounds)).ssl =
        (app.ssl.sslAppSend (app.offer _buffer) rounds).1 ∧
      (app.step (.send _buffer rounds)).received = app.received := by
  unfold step
  dsimp only
  generalize app.ssl.sslAppSend (app.offer _buffer) rounds = out
  obtain ⟨ssl, result⟩ := out
  cases result <;> exact ⟨rfl, rfl⟩

/-- **One call** keeps the order of the bytes. -/
theorem step_received (h : app.Received) (event : Event) : (app.step event).Received := by
  cases event with
  | recv _length _knowReadable rounds =>
    obtain ⟨s', ⟨calls, hcalls⟩, hmSsl, -, hasked, hread⟩ :=
      SslAsync.sslAppRecv_comes app.ssl _length _knowReadable rounds
    refine ⟨?_, ?_⟩
    · change (app.received ++ (app.ssl.sslAppRecv _length _knowReadable rounds).2.data) ++
          (app.ssl.sslAppRecv _length _knowReadable rounds).1.mReadFromVec =
        given (app.ssl.sslAppRecv _length _knowReadable rounds).1.mSsl
      rw [List.append_assoc, hread, hmSsl, hcalls.read, hcalls.mSsl, given_append,
        ← List.append_assoc, h.read]
    · change (app.ssl.sslAppRecv _length _knowReadable rounds).1.mCallSslReadForSslLib =
        asked false (app.ssl.sslAppRecv _length _knowReadable rounds).1.mSsl
      rw [hasked, hmSsl, hcalls.asked, hcalls.mSsl, asked_append, h.asked]
  | send _buffer rounds =>
    obtain ⟨hssl, hreceived⟩ := step_send_ssl app _buffer rounds
    obtain ⟨s', ⟨calls, hcalls⟩, -, hmSsl, hread, hasked⟩ :=
      SslAsync.sslAppSend_comes app.ssl (app.offer _buffer) rounds
    refine ⟨?_, ?_⟩
    · rw [hssl, hreceived, hread, hmSsl, hcalls.read, hcalls.mSsl, given_append,
        ← List.append_assoc]
      exact congrArg (· ++ given calls) h.read
    · rw [hssl, hasked, hmSsl, hcalls.asked, hcalls.mSsl, asked_append]
      exact congrArg (asked · calls) h.asked

/-- **One send** reads only what has been asked for if and only if it is quiet. -/
theorem sendsAsking_iff (h : app.Received) (event : Event) :
    app.SendsAsking event ↔ app.Quiet event := by
  cases event with
  | recv _length _knowReadable rounds => exact Iff.rfl
  | send _buffer rounds =>
    obtain ⟨s', ⟨calls, hcalls⟩, hquiet, hmSsl, -, -⟩ :=
      SslAsync.sslAppSend_comes app.ssl (app.offer _buffer) rounds
    rw [SendsAsking, (step_send_ssl app _buffer rounds).1, Quiet, ← h.asked]
    by_cases hempty : app.offer _buffer = []
    · refine iff_of_true (fun calls' hcalls' => ?_) (.inl hempty)
      have hnil : calls' = [] := by
        rw [hempty] at hcalls'
        exact List.append_cancel_left (hcalls'.symm.trans (List.append_nil _).symm)
      rw [hnil]
      trivial
    · rw [or_iff_right hempty, hquiet hempty, hcalls.asking_iff, hmSsl, hcalls.mSsl]
      constructor
      · intro hasking
        exact hasking calls rfl
      · intro hasked calls' hcalls'
        exact List.append_cancel_left hcalls' ▸ hasked

theorem start_received (mConnecting : Bool) (rounds : Nat → Round) :
    (start mConnecting rounds).Received := by
  obtain ⟨calls, hcalls⟩ := SslAsync.make_comes mConnecting rounds
  refine ⟨?_, ?_⟩
  · change [] ++ (SslAsync.make mConnecting rounds).mReadFromVec =
      given (SslAsync.make mConnecting rounds).mSsl
    rw [hcalls.mSsl, hcalls.read]
    rfl
  · change (SslAsync.make mConnecting rounds).mCallSslReadForSslLib =
      asked false (SslAsync.make mConnecting rounds).mSsl
    rw [hcalls.asked, hcalls.mSsl]
    rfl

/-- The sends of a run read only what has been asked for if and only if they are quiet. -/
theorem run_sendsAsking_iff : ∀ (events : List Event) {app : App}, app.Received →
    (Machine.Always step SendsAsking app events ↔ Machine.Always step Quiet app events)
  | [], _, _ => Iff.rfl
  | event :: events, app, h => by
    rw [Machine.Always, Machine.Always, sendsAsking_iff h event,
      run_sendsAsking_iff events (step_received h event)]

/-- **What is received.**  In every run of sends and receives the application has got the first
of the bytes that `SSL_read` has given, and the next of them are kept for it.  The sends of the
run read only what `SSL_write` has asked for if and only if no pass of theirs finds the socket
readable and reads from it, without that. -/
theorem receives (mConnecting : Bool) (rounds : Nat → Round) (events : List Event) :
    let app := run (start mConnecting rounds) events
    (app.received <+: given app.ssl.mSsl ∧
      app.received ++ app.ssl.mReadFromVec = given app.ssl.mSsl) ∧
    (Machine.Always step SendsAsking (start mConnecting rounds) events ↔
      Machine.Always step Quiet (start mConnecting rounds) events) := by
  intro app
  have hstart := start_received mConnecting rounds
  have hstep : ∀ (app : App) (event : Event), app.Received → (app.step event).Received :=
    fun _ event h => step_received h event
  have h : app.Received := Machine.run_inv hstep events _ hstart
  refine ⟨⟨?_, h.read⟩, run_sendsAsking_iff events hstart⟩
  rw [← h.read]
  exact List.prefix_append _ _

/-- The socket is readable and writable; `SSL_read` gives a byte before `SSL_write` takes one. -/
def readsFirst : Round :=
  { select := some (true, true), onReadable := { read := .bytes [7] }
    otherwise := { write := .took 1 } }

/-- A send of one byte reads one that nobody has asked for. -/
theorem send_swallows :
    ¬Machine.Always step SendsAsking (start false fun _ => {}) [.send [1] fun _ _ => readsFirst] := by
  intro h
  have hasked := h.1 [.SSL_read (.bytes [7]), .SSL_write [1] (.took 1)] (by decide)
  exact absurd hasked (by decide)

end App

end Pistache.Ssl
