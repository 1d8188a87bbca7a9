import Mathlib.Data.List.Basic
import Pistache.Lib.CountedLoop
import Pistache.Lib.Machine

/-!
# The socket of a TLS client

`SslAsync`: `sslAppSend` and `sslAppRecv` with `checkSocket`, the loop under both, in terms of
what `select` and the SSL library answer.  The state keeps the calls that the library has got,
with its answers.  What `select` waits for a result is left out, and its results are any.

* `Comes` — what a piece of the code has done to the buffers, by the calls it has made.
* `checkSocket_comes` — whatever the answers are, bytes move only from the buffer to the library
  and from the library to the buffer, in order.
-/

set_option autoImplicit false

namespace Pistache.Ssl

/-! ## The library -/

inductive ConnectAnswer where
  | connected
  | WANT_WRITE
  | WANT_READ
  | failed
  deriving DecidableEq, Repr

inductive ReadAnswer where
  | bytes (data : List UInt8)
  | WANT_WRITE
  | WANT_READ
  | ZERO_RETURN
  | failed
  deriving DecidableEq, Repr

inductive WriteAnswer where
  /-- the number of bytes that it took -/
  | took (num : Nat)
  | WANT_WRITE
  | WANT_READ
  | failed
  deriving DecidableEq, Repr

inductive SslCall where
  | SSL_connect (answer : ConnectAnswer)
  | SSL_read (answer : ReadAnswer)
  | SSL_write (data : List UInt8) (answer : WriteAnswer)
  deriving DecidableEq, Repr

/-- The bytes that `SSL_write` took. -/
def SslCall.taken : SslCall → List UInt8
  | .SSL_write data (.took num) => data.take num
  | _ => []

/-- The bytes that `SSL_read` gave. -/
def SslCall.given : SslCall → List UInt8
  | .SSL_read (.bytes data) => data
  | _ => []

/-- Whether `SSL_write` has asked for a read. -/
def SslCall.asked (asked : Bool) : SslCall → Bool
  | .SSL_connect _ => asked
  | .SSL_read _ => false
  | .SSL_write _ .WANT_READ => true
  | .SSL_write _ _ => asked

def taken (calls : List SslCall) : List UInt8 := calls.flatMap SslCall.taken

def given (calls : List SslCall) : List UInt8 := calls.flatMap SslCall.given

def asked (before : Bool) (calls : List SslCall) : Bool := calls.foldl SslCall.asked before

@[simp] theorem taken_append (calls later : List SslCall) :
    taken (calls ++ later) = taken calls ++ taken later := List.flatMap_append

@[simp] theorem given_append (calls later : List SslCall) :
    given (calls ++ later) = given calls ++ given later := List.flatMap_append

@[simp] theorem asked_append (before : Bool) (calls later : List SslCall) :
    asked before (calls ++ later) = asked (asked before calls) later := List.foldl_append

/-! ## `SslAsync` -/

inductive Errno where
  | zero
  | EINVAL
  | EWOULDBLOCK
  | ETIMEDOUT
  | ECONNREFUSED
  | ECONNRESET
  | ENODATA
  deriving DecidableEq, Repr

structure SslAsync where
  /-- the calls to the library so far -/
  mSsl : List SslCall := []
  mToWriteVec : List UInt8 := []
  mReadFromVec : List UInt8 := []
  mWantsTcpWrite : Bool := true
  mCallSslReadForSslLib : Bool := false
  mCallSslWriteForSslLib : Bool := false
  mConnecting : Bool := false
  errno : Errno := .zero
  deriving DecidableEq, Repr

inductive Action where
  | CONTINUE
  | BREAK
  | NEITHER
  deriving DecidableEq, Repr

/-- What the library answers to the call that is made. -/
structure Answers where
  connect : ConnectAnswer := .failed
  read : ReadAnswer := .failed
  write : WriteAnswer := .failed
  deriving DecidableEq, Repr

/-- What happens in one pass of the loop of `checkSocket`. -/
structure Round where
  timed_out : Bool := false
  ssl_pending : Bool := false
  /-- whether the socket is readable and writable, where `select` does not return 0 -/
  select : Option (Bool × Bool) := none
  /-- for the call that is made where the socket is readable, and for the other one -/
  onReadable : Answers := {}
  otherwise : Answers := {}
  deriving DecidableEq, Repr

namespace SslAsync

def ssl_connect (s : SslAsync) (answers : Answers) : SslAsync × Action :=
  let s := { s with mSsl := s.mSsl ++ [.SSL_connect answers.connect] }
  match answers.connect with
  | .WANT_WRITE => ({ s with mWantsTcpWrite := true }, .CONTINUE)
  | .WANT_READ => (s, .CONTINUE)
  | .failed => (s, .BREAK)
  | .connected => ({ s with mConnecting := false }, .BREAK)

def ssl_read (s : SslAsync) (answers : Answers) : SslAsync × Action :=
  let s := { s with mCallSslReadForSslLib := false, mSsl := s.mSsl ++ [.SSL_read answers.read] }
  match answers.read with
  | .WANT_WRITE => ({ s with mWantsTcpWrite := true, mCallSslWriteForSslLib := true }, .CONTINUE)
  | .WANT_READ => (s, .CONTINUE)
  | .ZERO_RETURN => ({ s with errno := .ECONNRESET }, .BREAK)
  | .failed | .bytes [] => ({ s with errno := .ENODATA }, .BREAK)
  | .bytes buffer => ({ s with mReadFromVec := s.mReadFromVec ++ buffer }, .NEITHER)

def ssl_write (s : SslAsync) (answers : Answers) : SslAsync × Action :=
  if s.mCallSslWriteForSslLib ∧ s.mToWriteVec = [] then (s, .BREAK)
  else
    let s := { s with mCallSslWriteForSslLib := false }
    if s.mToWriteVec = [] then (s, .NEITHER)
    else
      let s := { s with mSsl := s.mSsl ++ [.SSL_write s.mToWriteVec answers.write] }
      match answers.write with
      | .took 0 | .failed => (s, .BREAK)
      | .WANT_WRITE => ({ s with mWantsTcpWrite := true }, .CONTINUE)
      | .WANT_READ => ({ s with mCallSslReadForSslLib := true }, .CONTINUE)
      | .took num =>
        if s.mToWriteVec.length < num then
          ({ s with mToWriteVec := [], mWantsTcpWrite := true }, .NEITHER)
        else
          ({ s with mToWriteVec := s.mToWriteVec.drop num, mWantsTcpWrite := false }, .NEITHER)

/-! ### One pass of `checkSocket` -/

/-- What `continue`, `break` and neither of them do in the loop; the result is `res`. -/
def act : SslAsync × Action → SslAsync × Option Int
  | (s, .CONTINUE) => (s, none)
  | (s, .BREAK) => (s, some 0)
  | (s, .NEITHER) => (s, none)

/-- `act` where the loop is also left after a success, unless more is to be done. -/
def actUnless (more : SslAsync → Bool) : SslAsync × Action → SslAsync × Option Int
  | (s, .NEITHER) => (s, if more s then none else some 0)
  | other => act other

/-- `ssl_connect` in the loop: it never succeeds without leaving it. -/
def connect (s : SslAsync) (answers : Answers) : SslAsync × Option Int :=
  match s.ssl_connect answers with
  | (s, .BREAK) => ({ s with errno := .ECONNREFUSED }, some (-1))
  | (s, _) => (s, none)

/-- No wish for a read nor an SSL-level write. -/
def wishes (_forAppRead : Bool) (s : SslAsync) : Bool :=
  _forAppRead || s.mConnecting || s.mCallSslWriteForSslLib || s.mCallSslReadForSslLib

/-- The socket is writable. -/
def writable (_forAppRead : Bool) (answers : Answers) (s : SslAsync) : SslAsync × Option Int :=
  if s.mConnecting then { s with mWantsTcpWrite := false }.connect answers
  else if s.mCallSslReadForSslLib then act (s.ssl_read answers)
  else actUnless (wishes _forAppRead) (s.ssl_write answers)

/-- The socket is readable, and `write` follows where it is writable, too.  `continue` skips
that. -/
def readable (_forAppRead : Bool) (answers : Answers) (write : SslAsync → SslAsync × Option Int)
    (s : SslAsync) : SslAsync × Option Int :=
  if s.mConnecting then s.connect answers
  else if s.mCallSslWriteForSslLib then
    match s.ssl_write answers with
    | (s, .NEITHER) => write s
    | other => act other
  else
    match s.ssl_read answers with
    | (s, .NEITHER) =>
      if !_forAppRead || s.mConnecting || s.mCallSslWriteForSslLib || s.mCallSslReadForSslLib then
        write s
      else (s, some 0)
    | other => act other

/-- `select` has returned 0. -/
def notReady (_forAppRead write_pending : Bool) (answers : Answers) (s : SslAsync) :
    SslAsync × Option Int :=
  if s.mCallSslWriteForSslLib then (s, none)
  else if !write_pending && !s.mConnecting then (s, some 0)
  else if s.mConnecting then (s, none)
  else actUnless (wishes _forAppRead) (s.ssl_write answers)

def round (_forAppRead _knowReadable : Bool) (rounds : Nat → Round) :
    CountedLoop.Pass SslAsync Int := fun loop_count s =>
  let r := rounds loop_count
  let write_pending := s.mWantsTcpWrite || !s.mToWriteVec.isEmpty
  if r.timed_out then ({ s with errno := .ETIMEDOUT }, some (-1))
  else
    let assume_read_select := !s.mCallSslWriteForSslLib && !s.mConnecting &&
      (loop_count == 0 && _knowReadable || _forAppRead && r.ssl_pending)
    let read_fds := !assume_read_select &&
      (_forAppRead || s.mConnecting || !s.mCallSslWriteForSslLib)
    let write_fds := !assume_read_select &&
      (_forAppRead || s.mConnecting || !s.mCallSslReadForSslLib)
    match if assume_read_select then some (true, false) else r.select with
    | some (read, write) =>
      let write := if write_fds && write_pending && write then
        writable _forAppRead r.otherwise else fun s => (s, none)
      if assume_read_select || read_fds && read then
        readable _forAppRead r.onReadable write s
      else write s
    | none => notReady _forAppRead write_pending r.otherwise s

def MAX_LOOP_COUNT : Nat := 100

def checkSocket (_forAppRead _knowReadable : Bool) (rounds : Nat → Round) (s : SslAsync) :
    SslAsync × Int :=
  match CountedLoop.run (round _forAppRead _knowReadable rounds) MAX_LOOP_COUNT 0
    { s with errno := .zero } with
  | (s, some res) => (s, res)
  | (s, none) => ({ s with errno := .ETIMEDOUT }, -1)

/-! ### Sending and receiving -/

/-- How the loop of `sslAppSend` ends: `checkSocket` has failed, everything has been written, or
nothing more. -/
inductive Sent where
  | failed
  | written
  | stuck
  deriving DecidableEq, Repr

/-- A pass of the loop of `sslAppSend`, with `total_written`. -/
def sendPass (rounds : Nat → Nat → Round) : CountedLoop.Pass (SslAsync × Nat) Sent :=
  fun loop_count (s, total_written) =>
    let starting_size := s.mToWriteVec.length
    let (s', check_socket_res) := s.checkSocket false false (rounds loop_count)
    if check_socket_res ≠ 0 then ((s', total_written), some .failed)
    else if s'.mToWriteVec.length = 0 then ((s', total_written), some .written)
    else if s'.mToWriteVec.length ≥ starting_size then ((s', total_written), some .stuck)
    else ((s', total_written + (starting_size - s'.mToWriteVec.length)), none)

inductive SendResult where
  | accepted (count : Nat)
  /-- -1 -/
  | failed
  /-- the size that `resize` gets is negative -/
  | underflow
  deriving DecidableEq, Repr

def sslAppSend (s : SslAsync) (_buffer : List UInt8) (rounds : Nat → Nat → Round) :
    SslAsync × SendResult :=
  if _buffer.length = 0 then (s, .accepted 0)
  else
    let prior_size := s.mToWriteVec.length
    match CountedLoop.run (sendPass rounds) 256 0
      ({ s with mToWriteVec := s.mToWriteVec ++ _buffer }, 0) with
    | ((s, _), some .failed) => (s, .failed)
    | ((s, _), some .written) => (s, .accepted _buffer.length)
    | ((s, total_written), ended) =>
      if ended = none ∨ total_written ≤ prior_size then
        if prior_size < total_written then (s, .underflow)
        else
          ({ s with mToWriteVec := s.mToWriteVec.take (prior_size - total_written)
                    errno := .EWOULDBLOCK }, .failed)
      else (s, .accepted (total_written - prior_size))

inductive RecvResult where
  | bytes (data : List UInt8)
  /-- 0 -/
  | closed
  /-- -1 -/
  | failed
  deriving DecidableEq, Repr

def RecvResult.data : RecvResult → List UInt8
  | .bytes data => data
  | .closed | .failed => []

def sslAppRecv (s : SslAsync) (_length : Nat) (_knowReadable : Bool) (rounds : Nat → Round) :
    SslAsync × RecvResult :=
  if _length = 0 then ({ s with errno := .EINVAL }, .failed)
  else
    let s := if s.mReadFromVec = [] then
      ({ s with errno := .EWOULDBLOCK }.checkSocket true _knowReadable rounds).1 else s
    if s.mReadFromVec = [] then
      if s.errno = .ECONNRESET then (s, .closed)
      else (if s.errno = .zero then { s with errno := .EWOULDBLOCK } else s, .failed)
    else
      let bytes_received := min _length s.mReadFromVec.length
      ({ s with mReadFromVec := s.mReadFromVec.drop bytes_received },
        .bytes (s.mReadFromVec.take bytes_received))

/-! ## What becomes of the bytes -/

/-- The code has come from `s` to `s'` by these calls to the library. -/
structure Comes (s s' : SslAsync) (calls : List SslCall) : Prop where
  mSsl : s'.mSsl = s.mSsl ++ calls
  write : s.mToWriteVec = taken calls ++ s'.mToWriteVec
  read : s'.mReadFromVec = s.mReadFromVec ++ given calls
  asked : s'.mCallSslReadForSslLib = asked s.mCallSslReadForSslLib calls

def Leads (s s' : SslAsync) : Prop := ∃ calls, Comes s s' calls

variable {s s' s'' : SslAsync} {calls calls' : List SslCall}

theorem Comes.trans (h : Comes s s' calls) (h' : Comes s' s'' calls') :
    Comes s s'' (calls ++ calls') where
  mSsl := by rw [h'.mSsl, h.mSsl, List.append_assoc]
  write := by rw [h.write, h'.write, taken_append, List.append_assoc]
  read := by rw [h'.read, h.read, given_append, List.append_assoc]
  asked := by rw [h'.asked, h.asked, asked_append]

theorem Comes.unique (h : Comes s s' calls) (h' : Comes s s' calls') : calls = calls' :=
  List.append_cancel_left (h.mSsl.symm.trans h'.mSsl)

/-- No call, and nothing else is to be seen. -/
theorem Comes.still (hmSsl : s'.mSsl = s.mSsl) (hwrite : s'.mToWriteVec = s.mToWriteVec)
    (hread : s'.mReadFromVec = s.mReadFromVec)
    (hasked : s'.mCallSslReadForSslLib = s.mCallSslReadForSslLib) : Comes s s' [] where
  mSsl := by rw [hmSsl, List.append_nil]
  write := hwrite.symm
  read := by rw [hread]; exact (List.append_nil _).symm
  asked := hasked

theorem Leads.refl (s : SslAsync) : Leads s s := ⟨[], .still rfl rfl rfl rfl⟩

theorem Leads.trans (h : Leads s s') (h' : Leads s' s'') : Leads s s'' :=
  let ⟨_, h⟩ := h
  let ⟨_, h'⟩ := h'
  ⟨_, h.trans h'⟩

theorem ssl_connect_comes (s : SslAsync) (answers : Answers) :
    Comes s (s.ssl_connect answers).1 [.SSL_connect answers.connect] := by
  unfold ssl_connect
  cases answers.connect <;> exact ⟨rfl, rfl, (List.append_nil _).symm, rfl⟩

theorem ssl_read_comes (s : SslAsync) (answers : Answers) :
    Comes s (s.ssl_read answers).1 [.SSL_read answers.read] := by
  unfold ssl_read
  cases answers.read with
  | bytes data =>
    cases data with
    | nil => exact ⟨rfl, rfl, (List.append_nil _).symm, rfl⟩
    | cons b bs => exact ⟨rfl, rfl, by simp [given, SslCall.given], rfl⟩
  | WANT_WRITE | WANT_READ | ZERO_RETURN | failed =>
    exact ⟨rfl, rfl, (List.append_nil _).symm, rfl⟩

/-- `ssl_write` calls the library where there is something to write. -/
theorem ssl_write_comes (s : SslAsync) (answers : Answers) :
    Comes s (s.ssl_write answers).1
      (if s.mToWriteVec = [] then [] else [.SSL_write s.mToWriteVec answers.write]) := by
  unfold ssl_write
  by_cases hempty : s.mToWriteVec = []
  · rw [if_pos hempty]
    split
    · exact .still rfl rfl rfl rfl
    · simp only
      exact .still rfl rfl rfl rfl
  · rw [if_neg hempty, if_neg fun h => hempty h.2]
    simp only [if_neg hempty]
    cases answers.write with
    | took num =>
      cases num with
      | zero => exact ⟨rfl, by simp [taken, SslCall.taken], (List.append_nil _).symm, rfl⟩
      | succ num =>
        change Comes s (ite (s.mToWriteVec.length < num + 1) _ _ : SslAsync × Action).1 _
        split
        · next hlt =>
          refine ⟨rfl, ?_, (List.append_nil _).symm, rfl⟩
          simp [taken, SslCall.taken, List.take_of_length_le (Nat.le_of_lt hlt)]
        · exact ⟨rfl, by simp [taken, SslCall.taken], (List.append_nil _).symm, rfl⟩
    | WANT_WRITE | WANT_READ | failed =>
      exact ⟨rfl, rfl, (List.append_nil _).symm, rfl⟩

@[simp] theorem act_fst (p : SslAsync × Action) : (act p).1 = p.1 := by
  obtain ⟨s, action⟩ := p
  cases action <;> rfl

@[simp] theorem actUnless_fst (more : SslAsync → Bool) (p : SslAsync × Action) :
    (actUnless more p).1 = p.1 := by
  obtain ⟨s, action⟩ := p
  cases action <;> rfl

theorem connect_comes (s : SslAsync) (answers : Answers) :
    Comes s (s.connect answers).1 [.SSL_connect answers.connect] := by
  have h := ssl_connect_comes s answers
  unfold connect
  split
  · next s' heq =>
    rw [heq] at h
    exact ⟨h.mSsl, h.write, h.read, h.asked⟩
  · next s' action _ heq =>
    rw [heq] at h
    exact h

theorem writable_leads (_forAppRead : Bool) (answers : Answers) (s : SslAsync) :
    Leads s (writable _forAppRead answers s).1 := by
  unfold writable
  split
  · have h : Comes s { s with mWantsTcpWrite := false } [] := .still rfl rfl rfl rfl
    exact ⟨_, h.trans (connect_comes _ answers)⟩
  · split
    · rw [act_fst]
      exact ⟨_, ssl_read_comes s answers⟩
    · rw [actUnless_fst]
      exact ⟨_, ssl_write_comes s answers⟩

theorem readable_leads (_forAppRead : Bool) (answers : Answers)
    {write : SslAsync → SslAsync × Option Int} (hwrite : ∀ s, Leads s (write s).1)
    (s : SslAsync) : Leads s (readable _forAppRead answers write s).1 := by
  unfold readable
  split
  · exact ⟨_, connect_comes s answers⟩
  · split
    · have h : Leads s (s.ssl_write answers).1 := ⟨_, ssl_write_comes s answers⟩
      split
      · next s' heq =>
        rw [heq] at h
        exact h.trans (hwrite s')
      · rw [act_fst]
        exact h
    · have h : Leads s (s.ssl_read answers).1 := ⟨_, ssl_read_comes s answers⟩
      split
      · next s' heq =>
        rw [heq] at h
        split
        · exact h.trans (hwrite s')
        · exact h
      · rw [act_fst]
        exact h

theorem notReady_leads (_forAppRead write_pending : Bool) (answers : Answers) (s : SslAsync) :
    Leads s (notReady _forAppRead write_pending answers s).1 := by
  unfold notReady
  split
  · exact .refl s
  · split
    · exact .refl s
    · split
      · exact .refl s
      · rw [actUnless_fst]
        exact ⟨_, ssl_write_comes s answers⟩

/-- One pass of `checkSocket`. -/
theorem round_leads (_forAppRead _knowReadable : Bool) (rounds : Nat → Round) (i : Nat)
    (s : SslAsync) : Leads s (round _forAppRead _knowReadable rounds i s).1 := by
  unfold round
  dsimp only
  split
  · exact ⟨[], .still rfl rfl rfl rfl⟩
  · split
    · next read write _ =>
      have hwrite : ∀ (b : Bool) (s : SslAsync), Leads s ((if b then
          writable _forAppRead (rounds i).otherwise else fun s => (s, none)) s).1 := by
        intro b s
        cases b with
        | false => exact .refl s
        | true => exact writable_leads _forAppRead (rounds i).otherwise s
      split
      · exact readable_leads _forAppRead (rounds i).onReadable (hwrite _) s
      · exact hwrite _ s
    · exact notReady_leads _forAppRead _ (rounds i).otherwise s

/-- **`checkSocket`**, whatever `select` and the library answer. -/
theorem checkSocket_comes (_forAppRead _knowReadable : Bool) (rounds : Nat → Round)
    (s : SslAsync) : Leads s (s.checkSocket _forAppRead _knowReadable rounds).1 := by
  have hstart : Leads s { s with errno := .zero } := ⟨[], .still rfl rfl rfl rfl⟩
  have hrun := CountedLoop.run_rel Leads.refl Leads.trans
    (round_leads _forAppRead _knowReadable rounds) MAX_LOOP_COUNT 0 { s with errno := .zero }
  unfold checkSocket
  split
  · next s' res heq =>
    rw [heq] at hrun
    exact hstart.trans hrun
  · next s' heq =>
    rw [heq] at hrun
    exact hstart.trans (hrun.trans ⟨[], .still rfl rfl rfl rfl⟩)

/-- The constructor, when the socket has been made; connecting may have been left to it. -/
def make (mConnecting : Bool) (rounds : Nat → Round) : SslAsync :=
  (({ mConnecting } : SslAsync).checkSocket false false rounds).1

theorem make_comes (mConnecting : Bool) (rounds : Nat → Round) :
    Leads { mConnecting } (make mConnecting rounds) :=
  checkSocket_comes false false rounds { mConnecting }

/-- **`sslAppRecv`** returns the first bytes that are in the buffer then. -/
theorem sslAppRecv_comes (s : SslAsync) (_length : Nat) (_knowReadable : Bool)
    (rounds : Nat → Round) :
    ∃ s', Leads s s' ∧ (s.sslAppRecv _length _knowReadable rounds).1.mSsl = s'.mSsl ∧
      (s.sslAppRecv _length _knowReadable rounds).1.mToWriteVec = s'.mToWriteVec ∧
      (s.sslAppRecv _length _knowReadable rounds).1.mCallSslReadForSslLib =
        s'.mCallSslReadForSslLib ∧
      (s.sslAppRecv _length _knowReadable rounds).2.data ++
        (s.sslAppRecv _length _knowReadable rounds).1.mReadFromVec = s'.mReadFromVec := by
  unfold sslAppRecv
  split
  · exact ⟨s, .refl s, rfl, rfl, rfl, rfl⟩
  · extract_lets s₁ bytes_received
    have h : Leads s s₁ := by
      unfold s₁
      split
      · have herrno : Leads s { s with errno := .EWOULDBLOCK } := ⟨[], .still rfl rfl rfl rfl⟩
        exact herrno.trans (checkSocket_comes true _knowReadable rounds _)
      · exact .refl s
    refine ⟨s₁, h, ?_⟩
    by_cases hempty : s₁.mReadFromVec = []
    · rw [if_pos hempty]
      by_cases hreset : s₁.errno = .ECONNRESET
      · rw [if_pos hreset]
        exact ⟨rfl, rfl, rfl, rfl⟩
      · rw [if_neg hreset]
        by_cases hzero : s₁.errno = .zero
        · rw [if_pos hzero]
          exact ⟨rfl, rfl, rfl, rfl⟩
        · rw [if_neg hzero]
          exact ⟨rfl, rfl, rfl, rfl⟩
    · rw [if_neg hempty]
      exact ⟨rfl, rfl, rfl, List.take_append_drop _ _⟩

end SslAsync

/-! ## An application -/

/-- The application on one `SslAsync`. -/
structure App where
  ssl : SslAsync
  /-- the bytes that it sends, in order -/
  bytes : List UInt8 := []
  /-- those at the end that have not been reported as accepted -/
  rest : List UInt8 := []
  /-- the counts that have been reported -/
  accepted : Nat := 0
  underflow : Bool := false
  received : List UInt8 := []

inductive Event where
  | send (_buffer : List UInt8) (rounds : Nat → Nat → Round)
  | recv (_length : Nat) (_knowReadable : Bool) (rounds : Nat → Round)

namespace App

/-- What it sends next: the rest, or else a new buffer. -/
def offer (app : App) (_buffer : List UInt8) : List UInt8 :=
  if app.rest = [] then _buffer else app.rest

def step (app : App) : Event → App
  | .send _buffer rounds =>
    let buffer := app.offer _buffer
    let bytes := if app.rest = [] then app.bytes ++ _buffer else app.bytes
    match app.ssl.sslAppSend buffer rounds with
    | (ssl, .accepted count) =>
      { app with ssl, bytes, rest := buffer.drop count, accepted := app.accepted + count }
    | (ssl, .failed) => { app with ssl, bytes, rest := buffer }
    | (ssl, .underflow) => { app with ssl, bytes, rest := buffer, underflow := true }
  | .recv _length _knowReadable rounds =>
    let (ssl, result) := app.ssl.sslAppRecv _length _knowReadable rounds
    { app with ssl, received := app.received ++ result.data }

def start (mConnecting : Bool) (rounds : Nat → Round) : App :=
  { ssl := SslAsync.make mConnecting rounds }

def run (app : App) (events : List Event) : App := Machine.run step app events

end App

end Pistache.Ssl
