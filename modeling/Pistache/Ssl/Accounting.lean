import Pistache.Ssl.SslAsync

/-!
# What a TLS client has sent

An application that sends its bytes in order, and again what has not been reported as accepted.
`sslAppSend` keeps what `SSL_write` has left in `mToWriteVec`, also where it does not report it
as accepted: then the application sends it again.

* `sslAppSend_spec` — what a call comes to.
* `step_account_iff` — a call keeps the account if and only if it is whole.
* `sends_account` — in a run of whole calls the library has taken the first of the bytes.
-/

set_option autoImplicit false

namespace Pistache.Ssl

namespace SslAsync

variable {s s' : SslAsync} {buffer : List UInt8} {rounds : Nat → Nat → Round}

/-- The loop of `sslAppSend` for the buffer. -/
def sendLoop (s : SslAsync) (buffer : List UInt8) (rounds : Nat → Nat → Round) :
    (SslAsync × Nat) × Option Sent :=
  CountedLoop.run (sendPass rounds) 256 0
    ({ s with mToWriteVec := s.mToWriteVec ++ buffer }, 0)

/-- `checkSocket` does not fail, and `SSL_write` takes everything, or no byte of the buffer. -/
def Whole (s : SslAsync) (buffer : List UInt8) (rounds : Nat → Nat → Round) : Prop :=
  (s.sendLoop buffer rounds).2 ≠ some .failed ∧
    ((s.sendLoop buffer rounds).2 = some .written ∨
      (s.sendLoop buffer rounds).1.2 ≤ s.mToWriteVec.length)

instance : Decidable (s.Whole buffer rounds) := inferInstanceAs (Decidable (_ ∧ _))

/-- What passes have come to, from `s` with `total` written. -/
structure Passes (s : SslAsync) (total : Nat) (out : (SslAsync × Nat) × Option Sent) : Prop where
  leads : Leads s out.1.1
  total : out.2 = none ∨ out.2 = some .stuck →
    out.1.2 + out.1.1.mToWriteVec.length = total + s.mToWriteVec.length ∧
      out.1.1.mToWriteVec ≠ []
  written : out.2 = some .written → out.1.1.mToWriteVec = []

theorem sendPass_passes (rounds : Nat → Nat → Round) (i : Nat) (s : SslAsync) (total : Nat) :
    Passes s total (sendPass rounds i (s, total)) := by
  have h := checkSocket_comes false false (rounds i) s
  unfold sendPass
  dsimp only
  generalize s.checkSocket false false (rounds i) = out at h ⊢
  obtain ⟨s', check_socket_res⟩ := out
  have hle : s'.mToWriteVec.length ≤ s.mToWriteVec.length := by
    obtain ⟨calls, hcalls⟩ := h
    have hlength := congrArg List.length hcalls.write
    rw [List.length_append] at hlength
    exact hlength ▸ Nat.le_add_left _ _
  by_cases hres : check_socket_res ≠ 0
  · rw [if_pos hres]
    exact ⟨h, by simp, by simp⟩
  · rw [if_neg hres]
    by_cases hempty : s'.mToWriteVec.length = 0
    · rw [if_pos hempty]
      exact ⟨h, by simp, fun _ => List.length_eq_zero_iff.mp hempty⟩
    · rw [if_neg hempty]
      have hne : s'.mToWriteVec ≠ [] := fun he => hempty (by rw [he]; rfl)
      by_cases hge : s'.mToWriteVec.length ≥ s.mToWriteVec.length
      · rw [if_pos hge]
        exact ⟨h, fun _ => ⟨by dsimp only; omega, hne⟩, by simp⟩
      · rw [if_neg hge]
        exact ⟨h, fun _ => ⟨by dsimp only; omega, hne⟩, by simp⟩

theorem run_passes (rounds : Nat → Nat → Round) : ∀ (n i : Nat) (s : SslAsync) (total : Nat),
    s.mToWriteVec ≠ [] → Passes s total (CountedLoop.run (sendPass rounds) n i (s, total))
  | 0, _, s, _, hne => ⟨.refl s, fun _ => ⟨rfl, hne⟩, nofun⟩
  | n + 1, i, s, total, hne => by
    have h := sendPass_passes rounds i s total
    cases hpass : (sendPass rounds i (s, total)).2 with
    | none =>
      obtain ⟨hsum, hrest⟩ := h.total (.inl hpass)
      have ih := run_passes rounds n (i + 1) (sendPass rounds i (s, total)).1.1
        (sendPass rounds i (s, total)).1.2 hrest
      rw [CountedLoop.run_next hpass]
      refine ⟨h.leads.trans ih.leads, fun hend => ?_, ih.written⟩
      exact ⟨(ih.total hend).1.trans hsum, (ih.total hend).2⟩
    | some r =>
      rw [CountedLoop.run_leave hpass, ← hpass]
      exact h

/-- What `sslAppSend` comes to, with the calls to the library and the result, and whether that
is whole. -/
inductive Sends (s : SslAsync) (buffer : List UInt8) (s' : SslAsync) (calls : List SslCall) :
    Prop → SendResult → Prop where
  | written {whole : Prop} : whole → s.mToWriteVec ++ buffer = taken calls ++ s'.mToWriteVec →
    Sends s buffer s' calls whole (.accepted buffer.length)
  /-- no byte of the buffer has been taken -/
  | none {whole : Prop} : whole → s.mToWriteVec = taken calls ++ s'.mToWriteVec →
    Sends s buffer s' calls whole .failed
  /-- `checkSocket` has failed, and what is left of the bytes is kept -/
  | failed {whole : Prop} : ¬whole → s.mToWriteVec ++ buffer = taken calls ++ s'.mToWriteVec →
    Sends s buffer s' calls whole .failed
  /-- the end of the buffer is kept -/
  | part {whole : Prop} {count : Nat} : ¬whole →
    s.mToWriteVec ++ buffer = taken calls ++ s'.mToWriteVec → count < buffer.length →
    Sends s buffer s' calls whole (.accepted count)
  | underflow {whole : Prop} : ¬whole → Sends s buffer s' calls whole .underflow

/-- Only bytes that were there before have been taken. -/
theorem taken_none {calls : List SslCall} {kept w buffer : List UInt8} {n : Nat}
    (hwrite : kept ++ buffer = taken calls ++ w) (hn : (taken calls).length = n)
    (hle : n ≤ kept.length) : kept = taken calls ++ w.take (kept.length - n) := by
  have h := congrArg (List.take kept.length) hwrite
  rw [List.take_left, List.take_append, hn, List.take_of_length_le (hn.symm ▸ hle)] at h
  exact h

variable (s rounds) in
/-- **`sslAppSend`**, and whether the call has been whole. -/
theorem sslAppSend_spec (hbuffer : buffer ≠ []) :
    ∃ calls, (s.sslAppSend buffer rounds).1.mSsl = s.mSsl ++ calls ∧
      Sends s buffer (s.sslAppSend buffer rounds).1 calls (s.Whole buffer rounds)
        (s.sslAppSend buffer rounds).2 := by
  have hlength : buffer.length ≠ 0 := fun h => hbuffer (List.length_eq_zero_iff.mp h)
  have hne : s.mToWriteVec ++ buffer ≠ [] := fun h => hbuffer (List.append_eq_nil_iff.mp h).2
  have h := run_passes rounds 256 0 { s with mToWriteVec := s.mToWriteVec ++ buffer } 0 hne
  unfold sslAppSend Whole sendLoop
  rw [if_neg hlength]
  dsimp only
  generalize CountedLoop.run (sendPass rounds) 256 0
    ({ s with mToWriteVec := s.mToWriteVec ++ buffer }, 0) = out at h ⊢
  obtain ⟨⟨s', total_written⟩, ended⟩ := out
  obtain ⟨hleads, htotal, hwritten⟩ := h
  obtain ⟨calls, hmSsl, hwrite, -, -⟩ := hleads
  dsimp only at hmSsl hwrite htotal hwritten ⊢
  refine ⟨calls, ?_⟩
  have hlengths := congrArg List.length hwrite
  simp only [List.length_append] at hlengths
  match ended with
  | some .failed => exact ⟨hmSsl, .failed (by simp) hwrite⟩
  | some .written => exact ⟨hmSsl, .written (by simp) hwrite⟩
  | some .stuck =>
    obtain ⟨hsum, hrest⟩ := htotal (.inr rfl)
    have hpos := List.length_pos_iff.mpr hrest
    simp only [List.length_append] at hsum
    have htaken : (taken calls).length = total_written := by omega
    by_cases hle : total_written ≤ s.mToWriteVec.length
    · simp only [hle, or_true, if_true, if_neg (Nat.not_lt.mpr hle)]
      exact ⟨hmSsl, .none ⟨by simp, trivial⟩ (taken_none hwrite htaken hle)⟩
    · simp only [hle, reduceCtorEq, or_false, if_false]
      exact ⟨hmSsl, .part (by simp) hwrite (by omega)⟩
  | none =>
    obtain ⟨hsum, -⟩ := htotal (.inl rfl)
    simp only [List.length_append] at hsum
    have htaken : (taken calls).length = total_written := by omega
    by_cases hle : total_written ≤ s.mToWriteVec.length
    · simp only [true_or, if_true, if_neg (Nat.not_lt.mpr hle)]
      exact ⟨hmSsl, .none ⟨by simp, .inr hle⟩ (taken_none hwrite htaken hle)⟩
    · simp only [true_or, if_true, if_pos (Nat.lt_of_not_le hle)]
      exact ⟨hmSsl, .underflow (by simp [hle])⟩

end SslAsync

/-! ## The account -/

namespace App

/-- What has been sent is what the library took, what is kept for it, and what will be sent
again; the rest has been reported as accepted. -/
structure Account (app : App) : Prop where
  bytes : app.bytes = taken app.ssl.mSsl ++ app.ssl.mToWriteVec ++ app.rest
  accepted : app.accepted + app.rest.length = app.bytes.length
  underflow : app.underflow = false

/-- The call is whole, if it is one of `sslAppSend` with some bytes. -/
def Whole (app : App) : Event → Prop
  | .send _buffer rounds =>
    app.offer _buffer = [] ∨ app.ssl.Whole (app.offer _buffer) rounds
  | .recv .. => True

instance (app : App) : (event : Event) → Decidable (app.Whole event)
  | .send .. => inferInstanceAs (Decidable (_ ∨ _))
  | .recv .. => inferInstanceAs (Decidable True)

variable {app : App}

/-- The bytes so far with a new buffer, where there is no rest. -/
theorem Account.offer (h : app.Account) (_buffer : List UInt8) :
    (if app.rest = [] then app.bytes ++ _buffer else app.bytes) =
      taken app.ssl.mSsl ++ app.ssl.mToWriteVec ++ app.offer _buffer ∧
    app.accepted + (app.offer _buffer).length =
      (if app.rest = [] then app.bytes ++ _buffer else app.bytes).length := by
  have hbytes := h.bytes
  have haccepted := h.accepted
  unfold App.offer
  by_cases hrest : app.rest = []
  · rw [hrest, List.append_nil] at hbytes
    rw [hrest] at haccepted
    simp only [if_pos hrest, List.length_append]
    exact ⟨by rw [hbytes], by rw [← haccepted]; rfl⟩
  · simp only [if_neg hrest]
    exact ⟨hbytes, haccepted⟩

theorem step_recv (h : app.Account) (_length : Nat) (_knowReadable : Bool)
    (rounds : Nat → Round) : (app.step (.recv _length _knowReadable rounds)).Account := by
  obtain ⟨s', ⟨calls, hcalls⟩, hmSsl, hwrite, -, -⟩ :=
    SslAsync.sslAppRecv_comes app.ssl _length _knowReadable rounds
  refine ⟨?_, h.accepted, h.underflow⟩
  change app.bytes = taken (app.ssl.sslAppRecv _length _knowReadable rounds).1.mSsl ++
    (app.ssl.sslAppRecv _length _knowReadable rounds).1.mToWriteVec ++ app.rest
  rw [hmSsl, hwrite, hcalls.mSsl, taken_append, h.bytes, hcalls.write]
  simp only [List.append_assoc]

/-- **One call** keeps the account if and only if it is whole. -/
theorem step_account_iff (h : app.Account) (event : Event) :
    (app.step event).Account ↔ app.Whole event := by
  cases event with
  | recv _length _knowReadable rounds =>
    exact iff_of_true (step_recv h _length _knowReadable rounds) trivial
  | send _buffer rounds =>
    obtain ⟨hbytes, haccepted⟩ := h.offer _buffer
    unfold App.Whole step
    dsimp only
    generalize app.offer _buffer = buffer at hbytes haccepted ⊢
    generalize (if app.rest = [] then app.bytes ++ _buffer else app.bytes) = bytes
      at hbytes haccepted ⊢
    by_cases hbuffer : buffer = []
    · refine iff_of_true ?_ (.inl hbuffer)
      subst hbuffer
      exact ⟨hbytes, haccepted, h.underflow⟩
    · obtain ⟨calls, hmSsl, hsends⟩ :=
        SslAsync.sslAppSend_spec app.ssl rounds hbuffer
      rw [or_iff_right hbuffer]
      generalize app.ssl.Whole buffer rounds = whole at hsends ⊢
      generalize app.ssl.sslAppSend buffer rounds = out at hmSsl hsends ⊢
      obtain ⟨ssl, result⟩ := out
      change ssl.mSsl = app.ssl.mSsl ++ calls at hmSsl
      have hpos := List.length_pos_iff.mpr hbuffer
      cases hsends with
      | written hwhole hwrite =>
        refine iff_of_true ⟨?_, ?_, h.underflow⟩ hwhole
        · simp [hbytes, hmSsl, hwrite]
        · simpa using haccepted
      | none hwhole hwrite =>
        refine iff_of_true ⟨?_, haccepted, h.underflow⟩ hwhole
        simp [hbytes, hmSsl, hwrite]
      | failed hwhole hwrite =>
        refine iff_of_false (fun hafter => ?_) hwhole
        have hlength := congrArg List.length (hbytes.symm.trans hafter.bytes)
        have hlengths := congrArg List.length hwrite
        simp [hmSsl] at hlength hlengths
        omega
      | part hwhole hwrite hlt =>
        refine iff_of_false (fun hafter => ?_) hwhole
        have hlength := congrArg List.length (hbytes.symm.trans hafter.bytes)
        have hlengths := congrArg List.length hwrite
        simp [hmSsl] at hlength hlengths
        omega
      | underflow hwhole =>
        refine iff_of_false (fun hafter => ?_) hwhole
        cases hafter.underflow

/-- Nothing has been sent. -/
theorem start_account (mConnecting : Bool) (rounds : Nat → Round) :
    (start mConnecting rounds).Account := by
  obtain ⟨calls, hcalls⟩ := SslAsync.make_comes mConnecting rounds
  have hwrite := List.append_eq_nil_iff.mp hcalls.write.symm
  refine ⟨?_, rfl, rfl⟩
  change [] = taken (SslAsync.make mConnecting rounds).mSsl ++
    (SslAsync.make mConnecting rounds).mToWriteVec ++ []
  rw [hcalls.mSsl, hwrite.2]
  simp [hwrite.1]

/-- **What has been sent.**  In every run of sends and receives in which each call of `sslAppSend`
is whole, the library has taken the first of the application's bytes, the next of them are kept
for it, no size is negative, and the reported counts are what has been taken or is kept. -/
theorem sends_account (mConnecting : Bool) (rounds : Nat → Round) (events : List Event)
    (hwhole : Machine.Always step Whole (start mConnecting rounds) events) :
    let app := run (start mConnecting rounds) events
    app.Account ∧ taken app.ssl.mSsl <+: app.bytes ∧
      app.accepted = (taken app.ssl.mSsl).length + app.ssl.mToWriteVec.length := by
  intro app
  have hstep : ∀ (app : App) (event : Event), app.Account → app.Whole event →
      (app.step event).Account :=
    fun _ event h hwhole => (step_account_iff h event).mpr hwhole
  have h : app.Account :=
    Machine.Always.inv hstep events _ (start_account mConnecting rounds) hwhole
  have haccepted := h.accepted
  refine ⟨h, ?_, ?_⟩
  · rw [h.bytes, List.append_assoc]
    exact List.prefix_append _ _
  · rw [h.bytes] at haccepted
    simp only [List.length_append] at haccepted
    omega

/-- `SSL_write` takes so many bytes where the socket is writable. -/
def takes (num : Nat) : Round :=
  { select := some (false, true), otherwise := { write := .took num } }

/-- Two buffers; of the first, `SSL_write` takes one byte and then the others. -/
def twoSends : List Event :=
  [.send [1, 2, 3] fun i _ => takes (i + 1),
    .recv 8 true fun _ => { onReadable := { read := .bytes [9] } }, .send [4] fun _ _ => takes 1]

theorem sends_account_twoSends :
    Machine.Always step Whole (start false fun _ => {}) twoSends ∧
      taken (run (start false fun _ => {}) twoSends).ssl.mSsl = [1, 2, 3, 4] ∧
      (run (start false fun _ => {}) twoSends).Account := by
  have hwhole : Machine.Always step Whole (start false fun _ => {}) twoSends := by
    decide
  exact ⟨hwhole, by decide, (sends_account false (fun _ => {}) twoSends hwhole).1⟩

/-- `SSL_write` wants to write until the time is over; then it takes four bytes. -/
def sendAgain : List Event :=
  [.send [1, 2] fun _ i =>
      if i = 0 then { select := some (false, true), otherwise := { write := .WANT_WRITE } }
      else { timed_out := true },
    .send [] fun _ _ => takes 4]

/-- The bytes of the call that has failed are kept, and the application sends them again. -/
theorem sent_twice :
    ¬taken (run (start false fun _ => {}) sendAgain).ssl.mSsl <+:
      (run (start false fun _ => {}) sendAgain).bytes := by
  decide

end App

end Pistache.Ssl
