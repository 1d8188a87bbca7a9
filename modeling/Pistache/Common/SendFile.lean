import Mathlib.Data.List.Sigma
import Pistache.Common.Bytes

/-!
# The replacement of `sendfile`

`ps_sendfile` for systems that have no `sendfile`: a loop over `read` with a loop over `write` in
it, as a function of the results of these calls.  A list of results holds those of the calls that
are made, no more and no less; there is no run over results that the calls can not give.

The loop over `write` leaves the number of bytes that are left to write, and that is what the
remaining count is reduced by: it stays as it is after a block that has been written whole.  A
block that is given up does not end the loop over `read`.

Principal results:

* `transfer_progress` — how far reading, writing and the offset have come, after any results.
* `sendfile_iff` — the results with which the bytes that are asked for are sent and reported.
-/

set_option autoImplicit false

namespace Pistache.SendFile

variable {α : Type}

/-! ## The calls -/

/-- The values of `errno` that are told apart. -/
inductive Errno where
  | eintr
  | eagain
  | eio
  | other (code : Nat)
  deriving DecidableEq, Repr

/-- What `read` and `write` return. -/
inductive Returned where
  | bytes (n : Nat)
  | error (e : Errno)
  deriving DecidableEq, Repr

/-- `(errno == EINTR) || (errno == EAGAIN)`. -/
def interrupted (e : Errno) : Bool := e = .eintr ∨ e = .eagain

/-- The calls of `lseek`, each with its error if it fails: for the position of the file, to the
offset, and back. -/
structure Seeks where
  current : Option Errno := none
  start : Option Errno := none
  back : Option Errno := none

/-! ## Writing a block -/

/-- How the loop over `write` is left: the bytes that it has written and those it has not, the
last error that it has met, whether it has given up, and the results of later calls. -/
structure Written (α : Type) where
  sent : List α
  unsent : List α
  write_errors : Nat
  errno : Option Errno
  gaveUp : Bool
  rest : List Returned

/-- `while (bytes_read > 0)`. -/
def writeBlock (write_errors : Nat) (p : List α) : List Returned → Option (Written α)
  | [] => if p = [] then some ⟨[], [], write_errors, none, false, []⟩ else none
  | r :: ws =>
    if p = [] then some ⟨[], [], write_errors, none, false, r :: ws⟩
    else
      match r with
      | .bytes (n + 1) =>
        if n + 1 ≤ p.length then
          (writeBlock 0 (p.drop (n + 1)) ws).map fun w =>
            { w with sent := p.take (n + 1) ++ w.sent }
        else none
      | .bytes 0 =>
        if write_errors + 1 < 256 then writeBlock (write_errors + 1) p ws
        else some ⟨[], p, write_errors + 1, some .eio, true, ws⟩
      | .error e =>
        if interrupted e then
          if write_errors + 1 < 256 then
            (writeBlock (write_errors + 1) p ws).map fun w =>
              { w with errno := w.errno.or (some e) }
          else some ⟨[], p, write_errors + 1, some .eio, true, ws⟩
        else some ⟨[], p, write_errors, some e, true, ws⟩

/-! ## The loop over `read` -/

/-- The variables of the function, the position of `in_fd`, and what `out_fd` has been given. -/
structure State (α : Type) where
  read_errors : Nat
  write_errors : Nat
  bytes_written_res : Int
  offset : Option Int
  count : Nat
  pos : Nat
  errno : Option Errno
  sent : List α

/-- `sizeof(buff) - 16`. -/
def blockSize : Nat := 65536

/-- `(PST_SSIZE_T)count`. -/
def ssize (count : Nat) : Int := if count < 2 ^ 63 then count else (count : Int) - 2 ^ 64

/-- `bytes_to_read`. -/
def bytesToRead (count : Nat) : Nat := if count ≠ 0 then min blockSize count else blockSize

/-- `bytes_read` and `re_adjust_pos`. -/
def adjusted (count n : Nat) : Int × Bool :=
  if count ≠ 0 ∧ ssize count < (n : Int) then (ssize count, true) else (n, false)

/-- The state behind a block of `n` bytes that has been read and written. -/
def State.next (st : State α) (n : Nat) (w : Written α) : State α :=
  let (bytes_read, re_adjust_pos) := adjusted st.count n
  let offset := st.offset.map (· + bytes_read)
  let left := bytes_read - w.sent.length
  { read_errors := 0
    write_errors := w.write_errors
    bytes_written_res :=
      if w.gaveUp then (-1 : Int) else st.bytes_written_res + (w.sent.length : Int)
    offset := offset
    count := if st.count ≠ 0 then (((st.count : Int) - left) % 2 ^ 64).toNat else 0
    pos :=
      match re_adjust_pos, offset with
      | true, some o => if 0 ≤ o then o.toNat else st.pos + n
      | _, _ => st.pos + n
    errno := w.errno.or st.errno
    sent := st.sent ++ w.sent }

/-- `bytes_written_res = -1; break;` behind a failed `read`. -/
def State.failed (st : State α) (e : Errno) : State α :=
  { st with bytes_written_res := -1, errno := some e }

/-- `for (;;)`, from a state: the results of `read`, of `write`, and the state at the end. -/
def transfer (content : List α) (st : State α) : List Returned → List Returned → Option (State α)
  | [], _ => none
  | .error e :: rs, ws =>
    if interrupted e then
      if st.read_errors + 1 < 256 then
        transfer content { st with read_errors := st.read_errors + 1, errno := some e } rs ws
      else if rs = [] ∧ ws = [] then some (st.failed .eio) else none
    else if rs = [] ∧ ws = [] then some (st.failed e) else none
  | .bytes 0 :: rs, ws =>
    if content.length ≤ st.pos ∧ rs = [] ∧ ws = [] then some st else none
  | .bytes (n + 1) :: rs, ws =>
    if n + 1 ≤ bytesToRead st.count ∧ st.pos + (n + 1) ≤ content.length then
      let buff := (content.drop st.pos).take (n + 1)
      match writeBlock st.write_errors (buff.take (adjusted st.count (n + 1)).1.toNat) ws with
      | none => none
      | some w => transfer content (st.next (n + 1) w) rs w.rest
    else none

/-- What a call leaves: the result with `errno`, the offset, and what it has written. -/
structure Outcome (α : Type) where
  result : Int
  errno : Option Errno
  offset : Option Int
  sent : List α
  deriving DecidableEq

/-- `ps_sendfile` from the position `pos` of `in_fd`. -/
def ps_sendfile (content : List α) (pos : Nat) (seeks : Seeks) (offset : Option Nat) (count : Nat)
    (reads writes : List Returned) : Option (Outcome α) :=
  let start : State α :=
    { read_errors := 0, write_errors := 0, bytes_written_res := 0,
      offset := offset.map Int.ofNat, count, pos := offset.getD pos, errno := none, sent := [] }
  match if offset.isSome then seeks.current.or seeks.start else none with
  | some e =>
    if reads = [] ∧ writes = [] then some ⟨-1, some e, offset.map Int.ofNat, []⟩ else none
  | none =>
    (transfer content start reads writes).map fun st : State α =>
      match if st.offset.isSome ∧ (0 : Int) ≤ st.bytes_written_res then seeks.back else none with
      | some e => ⟨-1, some e, st.offset, st.sent⟩
      | none => ⟨st.bytes_written_res, st.errno, st.offset, st.sent⟩

/-! ## What is asked for -/

/-- **The call sends what it is asked for**: a first part of `count` bytes from the offset; what
it returns, and the offset, tell how much that was, and so does the offset when the call is to be
tried again. -/
structure Sends (content : List α) (offset count : Nat) (out : Outcome α) : Prop where
  inOrder : out.sent <+: (content.drop offset).take count
  reported : 0 ≤ out.result →
    out.result = out.sent.length ∧ out.offset = some ((offset : Int) + out.sent.length)
  again : out.result = -1 → out.errno = some .eagain ∨ out.errno = some .eio →
    out.offset = some ((offset : Int) + out.sent.length)

/-- The bytes of a list of results. -/
def total (rs : List Returned) : Nat :=
  (rs.map fun | .bytes n => n | .error _ => 0).sum

/-- What the results of `write` tell: interruptions in a row, the last error that a block has been
given up for, and whether bytes have been written after that. -/
structure Watch where
  write_errors : Nat
  gaveUp : Option Errno
  resumed : Bool

/-- One interruption more; the 256th in a row gives the block up. -/
def Watch.interrupt (w : Watch) : Watch :=
  { w with
    write_errors := w.write_errors + 1
    gaveUp := if w.write_errors + 1 < 256 then w.gaveUp else some .eio }

def Watch.step (w : Watch) : Returned → Watch
  | .bytes 0 => w.interrupt
  | .bytes (_ + 1) => { w with write_errors := 0, resumed := w.resumed || w.gaveUp.isSome }
  | .error e => if interrupted e then w.interrupt else { w with gaveUp := some e }

def watch (writes : List Returned) : Watch := writes.foldl Watch.step ⟨0, none, false⟩

/-- The error that reading leaves in `errno` behind the last block, from the one it had left. -/
def readEnd : Option Errno → List Returned → Option Errno
  | last, [] => last
  | last, .bytes 0 :: _ => last
  | _, .bytes (_ + 1) :: rs => readEnd none rs
  | _, .error e :: rs =>
    if rs = [] then some (if interrupted e then .eio else e) else readEnd (some e) rs

/-- No more than `count` bytes are written, and either no block is given up, or nothing is written
after that and the error at the end does not ask for another try. -/
structure Sound (count : Nat) (reads writes : List Returned) : Prop where
  bounded : total writes ≤ count
  givenUp : (watch writes).gaveUp = none ∨
    (watch writes).resumed = false ∧ ∀ e, (readEnd none reads).or (watch writes).gaveUp = some e →
      e ≠ .eagain ∧ e ≠ .eio

/-! ## One block -/

@[simp] theorem total_nil : total [] = 0 := rfl

@[simp] theorem total_bytes (n : Nat) (rs : List Returned) :
    total (.bytes n :: rs) = n + total rs := by
  simp [total]

@[simp] theorem total_error (e : Errno) (rs : List Returned) :
    total (.error e :: rs) = total rs := by
  simp [total]

theorem total_append (rs ts : List Returned) : total (rs ++ ts) = total rs + total ts := by
  simp [total]

/-- What the loop over `write` leaves of a block, in terms of the results `used` that it takes. -/
structure Wrote (write_errors : Nat) (p : List α) (used : List Returned) (w : Written α) :
    Prop where
  block : p = w.sent ++ w.unsent
  total : total used = w.sent.length
  unsent : w.gaveUp = true ↔ w.unsent ≠ []
  errno : w.gaveUp = true → ∃ e, w.errno = some e
  watched : ∀ g r, used.foldl Watch.step ⟨write_errors, g, r⟩ =
    ⟨w.write_errors, if w.gaveUp then w.errno else g, r || (g.isSome && !w.sent.isEmpty)⟩

theorem Wrote.nothing (write_errors : Nat) (rest : List Returned) :
    Wrote write_errors ([] : List α) [] ⟨[], [], write_errors, none, false, rest⟩ :=
  ⟨rfl, rfl, by simp, by simp, by simp⟩

/-- A block that is given up at the first result. -/
theorem Wrote.givenUp {write_errors errors : Nat} {p : List α} {r : Returned} {e : Errno}
    {rest : List Returned} (hp : p ≠ []) (empty : SendFile.total [r] = 0)
    (step : ∀ g b, Watch.step ⟨write_errors, g, b⟩ r = ⟨errors, some e, b⟩) :
    Wrote write_errors p [r] ⟨[], p, errors, some e, true, rest⟩ := by
  refine ⟨rfl, empty, by simp [hp], fun _ => ⟨e, rfl⟩, ?_⟩
  intro g b
  simp [step]

/-- An interruption that is not the last one. -/
theorem Wrote.interrupted {write_errors : Nat} {p : List α} {r : Returned} {used : List Returned}
    {w : Written α} {last : Option Errno} (empty : SendFile.total [r] = 0)
    (step : ∀ g b, Watch.step ⟨write_errors, g, b⟩ r = ⟨write_errors + 1, g, b⟩)
    (h : Wrote (write_errors + 1) p used w) :
    Wrote write_errors p (r :: used) { w with errno := w.errno.or last } := by
  have zero : SendFile.total (r :: used) = SendFile.total used := by
    rw [← List.singleton_append, total_append, empty]
    omega
  refine ⟨h.block, zero.trans h.total, h.unsent, ?_, ?_⟩
  · intro up
    obtain ⟨e, he⟩ := h.errno up
    exact ⟨e, by simp [he]⟩
  · intro g b
    rw [List.foldl_cons, step, h.watched]
    cases up : w.gaveUp with
    | false => simp
    | true =>
      obtain ⟨e, he⟩ := h.errno up
      simp [he]

/-- Some bytes of a block, and what is done with the rest of it. -/
theorem Wrote.some {write_errors n : Nat} {p : List α} {used : List Returned} {w : Written α}
    (hn : n + 1 ≤ p.length) (h : Wrote 0 (p.drop (n + 1)) used w) :
    Wrote write_errors p (.bytes (n + 1) :: used) { w with sent := p.take (n + 1) ++ w.sent } := by
  have taken : (p.take (n + 1)).length = n + 1 := by
    rw [List.length_take]
    omega
  refine ⟨?_, ?_, h.unsent, h.errno, ?_⟩
  · show p = p.take (n + 1) ++ w.sent ++ w.unsent
    rw [List.append_assoc, ← h.block, List.take_append_drop]
  · show SendFile.total (.bytes (n + 1) :: used) = (p.take (n + 1) ++ w.sent).length
    rw [total_bytes, h.total, List.length_append, taken]
  · intro g b
    have some : (p.take (n + 1) ++ w.sent).isEmpty = false := by
      cases take : p.take (n + 1) with
      | nil => simp [take] at taken
      | cons a t => rfl
    rw [List.foldl_cons]
    show used.foldl Watch.step ⟨0, g, b || g.isSome⟩ = _
    rw [h.watched, some]
    cases g.isSome <;> simp

/-- The loop over `write` takes a first part of the results. -/
theorem writeBlock_wrote {write_errors : Nat} {p : List α} {ws : List Returned} {w : Written α}
    (h : writeBlock write_errors p ws = some w) :
    ∃ used, ws = used ++ w.rest ∧ Wrote write_errors p used w := by
  induction ws generalizing write_errors p w with
  | nil =>
    rw [writeBlock] at h
    split at h
    · next empty =>
      cases h
      subst empty
      exact ⟨[], rfl, .nothing _ _⟩
    · cases h
  | cons r ws ih =>
    unfold writeBlock at h
    split at h
    · next empty =>
      cases h
      subst empty
      exact ⟨[], rfl, .nothing _ _⟩
    next hp =>
    split at h
    · next n =>
      split at h
      · next hn =>
        obtain ⟨v, hv, rfl⟩ := Option.map_eq_some_iff.mp h
        obtain ⟨used, rfl, wrote⟩ := ih hv
        exact ⟨.bytes (n + 1) :: used, rfl, wrote.some hn⟩
      · cases h
    · split at h
      · next few =>
        obtain ⟨used, rfl, wrote⟩ := ih h
        have kept : Wrote write_errors p (.bytes 0 :: used) { w with errno := w.errno.or none } :=
          wrote.interrupted rfl fun g b => by simp [Watch.step, Watch.interrupt, few]
        exact ⟨.bytes 0 :: used, rfl, by simpa using kept⟩
      · next many =>
        cases h
        exact ⟨[.bytes 0], rfl, .givenUp hp rfl fun g b => by
          simp [Watch.step, Watch.interrupt, many]⟩
    · next e =>
      split at h
      · next again =>
        split at h
        · next few =>
          obtain ⟨v, hv, rfl⟩ := Option.map_eq_some_iff.mp h
          obtain ⟨used, rfl, wrote⟩ := ih hv
          exact ⟨.error e :: used, rfl, wrote.interrupted rfl fun g b => by
            simp [Watch.step, Watch.interrupt, again, few]⟩
        · next many =>
          cases h
          exact ⟨[.error e], rfl, .givenUp hp rfl fun g b => by
            simp [Watch.step, Watch.interrupt, again, many]⟩
      · next hard =>
        cases h
        exact ⟨[.error e], rfl, .givenUp hp rfl fun g b => by simp [Watch.step, hard]⟩

/-! ## How far the call has come -/

theorem adjusted_eq {count n : Nat} (hc : count < 2 ^ 63) (hn : n ≤ bytesToRead count) :
    adjusted count n = ((n : Int), false) := by
  unfold adjusted
  rw [if_neg]
  rintro ⟨nonzero, less⟩
  rw [ssize, if_pos hc] at less
  rw [bytesToRead, if_pos nonzero] at hn
  omega

/-- Of a block whose bytes are all counted, what is not written is what `count` loses. -/
theorem State.next_count {st : State α} {n : Nat} {w : Written α} (hc : st.count < 2 ^ 63)
    (hn : n ≤ bytesToRead st.count) (hw : w.sent.length ≤ n) :
    (st.next n w).count = if st.count ≠ 0 then st.count - (n - w.sent.length) else 0 := by
  have counted : (st.next n w).count = if st.count ≠ 0 then
      (((st.count : Int) - ((adjusted st.count n).1 - w.sent.length)) % 2 ^ 64).toNat else 0 := rfl
  rw [counted, adjusted_eq hc hn]
  split
  · next nonzero =>
    rw [bytesToRead, if_pos nonzero] at hn
    dsimp only
    omega
  · rfl

/-- What is written behind a gap does not continue what stands before it. -/
theorem skipped_not_prefix {l s : List α} (nodup : l.Nodup) {P N : Nat} (gap : P < N)
    (hs : s ≠ []) (behind : s <+: l.drop N) : ¬ l.take P ++ s <+: l := by
  obtain ⟨x, t, rfl⟩ := List.exists_cons_of_ne_nil hs
  obtain ⟨v, hv⟩ := behind
  rintro ⟨u, hu⟩
  have first : l.drop P = x :: (t ++ u) := by
    have := hu.trans (List.take_append_drop P l).symm
    rw [List.append_assoc] at this
    exact (List.append_cancel_left this).symm
  have atP : l[P]? = some x := by
    rw [← List.head?_drop, first]
    rfl
  have atN : l[N]? = some x := by
    rw [← List.head?_drop, ← hv]
    rfl
  obtain ⟨inside, -⟩ := List.getElem?_eq_some_iff.mp atP
  have := (List.getElem?_inj inside nodup).mp (atP.trans atN.symm)
  omega

/-- `N` bytes have been read from the offset `o` on. -/
structure Reached (content : List α) (o N : Nat) (st : State α) (w : Watch) : Prop where
  pos : st.pos = o + N
  offset : st.offset = some ((o : Int) + N)
  inside : N ≤ (content.drop o).length
  write_errors : st.write_errors = w.write_errors

/-- How far the loop has come, next to what the results of `write` tell: all blocks have been
written whole; or one has been given up, and nothing has been written since; or something has. -/
inductive Progress (content : List α) (o c : Nat) (st : State α) (w : Watch)
    (last : Option Errno) : Prop where
  | whole (N : Nat) (reached : Reached content o N st w)
      (sent : st.sent = (content.drop o).take N) (result : st.bytes_written_res = N)
      (count : st.count = c) (gaveUp : w.gaveUp = none) (resumed : w.resumed = false)
  | stopped (N P : Nat) (e : Errno) (reached : Reached content o N st w) (gap : P < N)
      (sent : st.sent = (content.drop o).take P) (result : st.bytes_written_res = -1)
      (count : st.count ≤ c) (gaveUp : w.gaveUp = some e) (resumed : w.resumed = false)
      (errno : st.errno = last.or (some e))
  | resumed (write_errors : st.write_errors = w.write_errors)
      (sent : ¬ st.sent <+: content.drop o) (gaveUp : w.gaveUp ≠ none) (resumed : w.resumed = true)

/-- A `read` that is to be tried again changes nothing but `errno`. -/
theorem Progress.again {content : List α} {o c : Nat} {st : State α} {w : Watch}
    {last : Option Errno} (h : Progress content o c st w last) (read_errors : Nat) (e : Errno) :
    Progress content o c { st with read_errors := read_errors, errno := some e } w (some e) := by
  cases h with
  | whole N reached sent result count gaveUp resumed =>
    exact .whole N ⟨reached.pos, reached.offset, reached.inside, reached.write_errors⟩ sent result
      count gaveUp resumed
  | stopped N P d reached gap sent result count gaveUp resumed errno =>
    exact .stopped N P d ⟨reached.pos, reached.offset, reached.inside, reached.write_errors⟩ gap
      sent result count gaveUp resumed rfl
  | resumed write_errors sent gaveUp resumed => exact .resumed write_errors sent gaveUp resumed

/-- A block moves the position and the offset by what has been read of it. -/
theorem Reached.next {content : List α} {o N n : Nat} {st : State α} {w : Watch}
    {wr : Written α} {v : Watch} (h : Reached content o N st w) (hc : st.count < 2 ^ 63)
    (hn : n ≤ bytesToRead st.count) (inside : st.pos + n ≤ content.length)
    (hv : v.write_errors = wr.write_errors) : Reached content o (N + n) (st.next n wr) v := by
  have bytes := adjusted_eq hc hn
  have := h.pos
  refine ⟨?_, ?_, ?_, hv.symm⟩
  · simp only [State.next, bytes]
    omega
  · simp only [State.next, bytes, h.offset, Option.map_some, Int.natCast_add]
    rw [Int.add_assoc]
  · rw [List.length_drop]
    omega

/-- What is written of the first `n` bytes of a list: a first part, all of it if the block is not
given up, and less if it is. -/
theorem Wrote.part {write_errors n : Nat} {l : List α} {used : List Returned} {w : Written α}
    (inside : n ≤ l.length) (h : Wrote write_errors (l.take n) used w) :
    w.sent = l.take w.sent.length ∧
      (w.gaveUp = false ∧ w.sent.length = n ∨ w.gaveUp = true ∧ w.sent.length < n) := by
  have parts : n = w.sent.length + w.unsent.length := by
    have := congrArg List.length h.block
    rw [List.length_take, List.length_append] at this
    omega
  have first : w.sent = l.take w.sent.length := by
    have := congrArg (List.take w.sent.length) h.block
    rw [List.take_left, List.take_take, Nat.min_eq_left (by omega)] at this
    exact this.symm
  refine ⟨first, ?_⟩
  cases up : w.gaveUp with
  | false =>
    have none : w.unsent = [] := by
      by_contra some
      have := h.unsent.mpr some
      rw [up] at this
      cases this
    rw [none, List.length_nil] at parts
    exact .inl ⟨rfl, by omega⟩
  | true =>
    have some := List.length_pos_iff.mpr (h.unsent.mp up)
    exact .inr ⟨rfl, by omega⟩

/-- A block takes the loop from one stage to the same or to a later one. -/
theorem Progress.next {content : List α} {o c n : Nat} {st : State α} {w : Watch}
    {last : Option Errno} {used : List Returned} {wr : Written α} (nodup : content.Nodup)
    (hc : c < 2 ^ 63) (h : Progress content o c st w last) (hn : n + 1 ≤ bytesToRead st.count)
    (inside : st.pos + (n + 1) ≤ content.length)
    (wrote : Wrote st.write_errors
      (((content.drop st.pos).take (n + 1)).take (adjusted st.count (n + 1)).1.toNat) used wr) :
    Progress content o c (st.next (n + 1) wr) (used.foldl Watch.step w) none := by
  obtain ⟨errors, g, b⟩ := w
  cases h with
  | resumed write_errors sent gaveUp resumed =>
    dsimp only at write_errors gaveUp resumed
    rw [← write_errors, wrote.watched]
    refine .resumed rfl ?_ ?_ ?_
    · intro all
      exact sent ((List.prefix_append _ _).trans all)
    · cases up : wr.gaveUp with
      | false => simpa using gaveUp
      | true =>
        obtain ⟨e, he⟩ := wrote.errno up
        simp [he]
    · simp [resumed]
  | whole N reached sent result count gaveUp resumed =>
    dsimp only at gaveUp resumed
    obtain rfl : st.write_errors = errors := reached.write_errors
    subst gaveUp resumed count
    have l_inside : n + 1 ≤ ((content.drop o).drop N).length := by
      rw [List.drop_drop, ← reached.pos, List.length_drop]
      omega
    rw [adjusted_eq hc hn, Int.toNat_natCast, List.take_take, Nat.min_self, reached.pos,
      ← List.drop_drop] at wrote
    obtain ⟨first, ⟨up, all⟩ | ⟨up, less⟩⟩ := wrote.part l_inside
    · rw [wrote.watched, up]
      refine .whole (N + (n + 1)) (reached.next hc hn inside rfl) ?_ ?_ ?_ rfl rfl
      · show st.sent ++ wr.sent = _
        rw [sent, first, all, ← List.take_add]
      · show (if wr.gaveUp then (-1 : Int) else st.bytes_written_res + wr.sent.length) = _
        rw [up, result, all, if_neg Bool.false_ne_true]
        omega
      · rw [State.next_count hc hn (by omega), all]
        split <;> omega
    · obtain ⟨e, he⟩ := wrote.errno up
      rw [wrote.watched, up, he]
      refine .stopped (N + (n + 1)) (N + wr.sent.length) e (reached.next hc hn inside rfl)
        (by omega) ?_ ?_ ?_ rfl rfl ?_
      · show st.sent ++ wr.sent = _
        rw [sent, List.take_add, ← first]
      · show (if wr.gaveUp then (-1 : Int) else st.bytes_written_res + wr.sent.length) = _
        rw [up, if_pos rfl]
      · rw [State.next_count hc hn (by omega)]
        split <;> omega
      · show wr.errno.or st.errno = _
        rw [he]
        rfl
  | stopped N P e reached gap sent result count gaveUp resumed errno =>
    dsimp only at gaveUp resumed
    obtain rfl : st.write_errors = errors := reached.write_errors
    subst gaveUp resumed
    have small : st.count < 2 ^ 63 := by omega
    have l_inside : n + 1 ≤ ((content.drop o).drop N).length := by
      rw [List.drop_drop, ← reached.pos, List.length_drop]
      omega
    rw [adjusted_eq small hn, Int.toNat_natCast, List.take_take, Nat.min_self, reached.pos,
      ← List.drop_drop] at wrote
    obtain ⟨first, last⟩ := wrote.part l_inside
    rcases Decidable.em (wr.sent = []) with none | some
    · -- nothing is written of this block either, so it is given up
      have zero : wr.sent.length = 0 := by rw [none, List.length_nil]
      obtain ⟨up, all⟩ | ⟨up, less⟩ := last
      · omega
      obtain ⟨d, hd⟩ := wrote.errno up
      rw [wrote.watched, up, hd, none]
      refine .stopped (N + (n + 1)) P d (reached.next small hn inside rfl) (by omega) ?_ ?_ ?_ rfl
        rfl ?_
      · show st.sent ++ wr.sent = _
        rw [sent, none, List.append_nil]
      · show (if wr.gaveUp then (-1 : Int) else st.bytes_written_res + wr.sent.length) = _
        rw [up, if_pos rfl]
      · rw [State.next_count small hn (by omega)]
        split <;> omega
      · show wr.errno.or st.errno = _
        rw [hd]
        rfl
    · rw [wrote.watched]
      refine .resumed rfl ?_ ?_ ?_
      · show ¬ st.sent ++ wr.sent <+: _
        rw [sent]
        refine skipped_not_prefix (nodup.sublist (List.drop_sublist _ _)) gap some ?_
        rw [first]
        exact List.take_prefix _ _
      · obtain ⟨up, all⟩ | ⟨up, less⟩ := last
        · simp [up]
        · obtain ⟨d, hd⟩ := wrote.errno up
          simp [up, hd]
      · simp [some]

/-- How far reading, writing and the offset have come at the end, after any results: what the
caller sees is a stage of the loop, but for the result of a failed `read`. -/
theorem transfer_progress {content : List α} {o c : Nat} (nodup : content.Nodup)
    (hc : c < 2 ^ 63) {st st' : State α} {w : Watch} {last : Option Errno}
    {reads writes : List Returned} (h : Progress content o c st w last)
    (run : transfer content st reads writes = some st') :
    ∃ stage : State α,
      Progress content o c stage (writes.foldl Watch.step w) (readEnd last reads) ∧
      stage.sent.length = st.sent.length + total writes ∧
      (st' = stage ∨ st' = { stage with bytes_written_res := -1 }) := by
  induction reads generalizing st w last writes with
  | nil => cases run
  | cons r reads ih =>
    match r with
    | .error e =>
      rw [transfer] at run
      split at run
      · next again =>
        split at run
        · obtain ⟨stage, progress, sent, ending⟩ := ih (h.again (st.read_errors + 1) e) run
          have more : reads ≠ [] := by
            rintro rfl
            cases run
          refine ⟨stage, ?_, sent, ending⟩
          rw [readEnd, if_neg more]
          exact progress
        · split at run
          · next ends =>
            obtain ⟨rfl, rfl⟩ := ends
            cases run
            refine ⟨{ st with errno := some .eio }, ?_, rfl, .inr rfl⟩
            rw [readEnd, if_pos rfl, if_pos again]
            exact h.again st.read_errors .eio
          · cases run
      · next hard =>
        split at run
        · next ends =>
          obtain ⟨rfl, rfl⟩ := ends
          cases run
          refine ⟨{ st with errno := some e }, ?_, rfl, .inr rfl⟩
          rw [readEnd, if_pos rfl, if_neg hard]
          exact h.again st.read_errors e
        · cases run
    | .bytes 0 =>
      rw [transfer] at run
      split at run
      · next ends =>
        obtain ⟨-, rfl, rfl⟩ := ends
        cases run
        exact ⟨st', h, rfl, .inl rfl⟩
      · cases run
    | .bytes (n + 1) =>
      rw [transfer] at run
      split at run
      · next inside =>
        dsimp only at run
        split at run
        · cases run
        · next wr block =>
          obtain ⟨used, rfl, wrote⟩ := writeBlock_wrote block
          have step := h.next nodup hc inside.1 inside.2 wrote
          obtain ⟨stage, progress, sent, ending⟩ := ih step run
          refine ⟨stage, ?_, ?_, ending⟩
          · rw [List.foldl_append, readEnd]
            exact progress
          · have written : (st.next (n + 1) wr).sent.length = st.sent.length + wr.sent.length := by
              show (st.sent ++ wr.sent).length = _
              rw [List.length_append]
            rw [sent, written, total_append, wrote.total]
            omega
      · cases run

/-! ## The call -/

/-- What the caller sees of the last stage of the loop, and whether it is told to try again. -/
theorem sendfile_stage {content : List α} {seeks : Seeks} {o c pos : Nat}
    {reads writes : List Returned} {out : Outcome α} (nodup : content.Nodup) (hc : c < 2 ^ 63)
    (run : ps_sendfile content pos seeks (some o) c reads writes = some out) :
    (reads = [] ∧ writes = [] ∧ out.result = -1 ∧ out.offset = some (o : Int) ∧ out.sent = []) ∨
    ∃ stage : State α, Progress content o c stage (watch writes) (readEnd none reads) ∧
      stage.sent.length = total writes ∧ out.sent = stage.sent ∧ out.offset = stage.offset ∧
      (out.result = stage.bytes_written_res ∨ out.result = -1) ∧
      (stage.bytes_written_res < 0 → out.errno = stage.errno) := by
  unfold ps_sendfile at run
  dsimp only at run
  split at run
  · next e _ =>
    split at run
    · next ends =>
      cases run
      exact .inl ⟨ends.1, ends.2, rfl, rfl, rfl⟩
    · cases run
  · obtain ⟨st', loop, shape⟩ := Option.map_eq_some_iff.mp run
    have start : Progress content o c
        ⟨0, 0, 0, some (o : Int), c, o, none, []⟩ ⟨0, none, false⟩ none :=
      .whole 0 ⟨rfl, by simp, Nat.zero_le _, rfl⟩ rfl rfl rfl rfl rfl
    obtain ⟨stage, progress, sent, ending⟩ := transfer_progress nodup hc start loop
    refine .inr ⟨stage, progress, by simpa using sent, ?_⟩
    rcases ending with rfl | rfl
    · split at shape
      · next e back =>
        subst shape
        refine ⟨rfl, rfl, .inr rfl, ?_⟩
        intro negative
        rw [if_neg (by omega)] at back
        cases back
      · subst shape
        exact ⟨rfl, rfl, .inl rfl, fun _ => rfl⟩
    · rw [if_neg (by simp)] at shape
      subst shape
      exact ⟨rfl, rfl, .inr rfl, fun _ => rfl⟩

/-- **What is asked for is sent if, and only if, the results are sound**: no more than `count`
bytes are written, and nothing behind a block that has been given up.  Each byte of the file is
taken with its place, so that it is not mistaken for another one; `count` is what is left of the
size of a file. -/
theorem sendfile_iff {file : List UInt8} {pos o count : Nat} {seeks : Seeks}
    {reads writes : List Returned} {out : Outcome (UInt8 × Nat)} (size : count < 2 ^ 63)
    (run : ps_sendfile file.zipIdx pos seeks (some o) count reads writes = some out) :
    Sends file.zipIdx o count out ↔ Sound count reads writes := by
  have nodup : file.zipIdx.Nodup := (List.nodup_zipIdx_map_snd file).of_map _
  rcases sendfile_stage nodup size run with
    ⟨rfl, rfl, result, offset, sent⟩ | ⟨stage, progress, length, sent, offset, result, errno⟩
  · have sends : Sends file.zipIdx o count out := by
      refine ⟨?_, ?_, ?_⟩
      · rw [sent]
        exact List.nil_prefix
      · omega
      · intro _ _
        rw [offset, sent]
        simp
    exact ⟨fun _ => ⟨Nat.zero_le _, .inl rfl⟩, fun _ => sends⟩
  cases progress with
  | resumed _ gone gaveUp resumed =>
    constructor
    · intro sends
      rw [← sent] at gone
      exact absurd (sends.inOrder.trans (List.take_prefix _ _)) gone
    · intro sound
      rcases sound.givenUp with none | ⟨calm, -⟩
      · exact absurd none gaveUp
      · rw [resumed] at calm
        cases calm
  | whole N reached written reported _ gaveUp _ =>
    have all : total writes = N := by
      rw [← length, written, List.length_take, Nat.min_eq_left reached.inside]
    constructor
    · intro sends
      refine ⟨?_, .inl gaveUp⟩
      have := sends.inOrder.length_le
      rw [sent, length, List.length_take] at this
      omega
    · intro sound
      have bounded := sound.bounded
      refine ⟨?_, ?_, ?_⟩
      · rw [sent, written]
        exact List.take_prefix_take_left (by omega)
      · intro good
        rw [offset, reached.offset, sent, length]
        exact ⟨by omega, by rw [all]⟩
      · intro _ _
        rw [offset, reached.offset, sent, length, all]
  | stopped N P e reached gap written reported _ gaveUp resumed last =>
    have inside := reached.inside
    have all : total writes = P := by
      rw [← length, written, List.length_take, Nat.min_eq_left (by omega)]
    have failed : out.result = -1 := by omega
    have told : out.errno = (readEnd none reads).or (watch writes).gaveUp := by
      rw [errno (by omega), last, gaveUp]
    constructor
    · intro sends
      refine ⟨?_, .inr ⟨resumed, ?_⟩⟩
      · have := sends.inOrder.length_le
        rw [sent, length, List.length_take] at this
        omega
      · intro d hd
        rw [← told] at hd
        have behind : out.offset ≠ some ((o : Int) + out.sent.length) := by
          rw [offset, reached.offset, sent, length, all]
          intro same
          have := Option.some.inj same
          omega
        constructor
        · rintro rfl
          exact behind (sends.again failed (.inl hd))
        · rintro rfl
          exact behind (sends.again failed (.inr hd))
    · intro sound
      have bounded := sound.bounded
      refine ⟨?_, ?_, ?_⟩
      · rw [sent, written]
        exact List.take_prefix_take_left (by omega)
      · omega
      · intro _ tryAgain
        rcases sound.givenUp with none | ⟨-, calm⟩
        · rw [gaveUp] at none
          cases none
        · rw [told] at tryAgain
          rcases tryAgain with again | again
          · exact absurd rfl (calm _ again).1
          · exact absurd rfl (calm _ again).2

/-- The last two bytes of a file, written with an interruption between them. -/
theorem sendfile_last_two :
    Sends ([10, 20, 30] : List UInt8).zipIdx 1 2 ⟨2, some .eagain, some 3, [(20, 1), (30, 2)]⟩ ↔
      Sound 2 [.bytes 2, .bytes 0] [.bytes 1, .error .eagain, .bytes 1] := by
  have run : ps_sendfile ([10, 20, 30] : List UInt8).zipIdx 0 {} (some 1) 2 [.bytes 2, .bytes 0]
      [.bytes 1, .error .eagain, .bytes 1] =
        some ⟨2, some .eagain, some 3, [(20, 1), (30, 2)]⟩ := by decide
  exact sendfile_iff (by decide) run

/-- Two of three bytes are asked for, and the whole file is sent. -/
theorem sendfile_sends_more :
    ∃ out, ps_sendfile ([10, 20, 30] : List UInt8).zipIdx 0 {} (some 0) 2
        [.bytes 2, .bytes 1, .bytes 0] [.bytes 2, .bytes 1] = some out ∧
      out.result = 3 ∧ ¬ Sends ([10, 20, 30] : List UInt8).zipIdx 0 2 out := by
  refine ⟨⟨3, none, some 3, [(10, 0), (20, 1), (30, 2)]⟩, by decide, rfl, ?_⟩
  intro sends
  have := sends.inOrder.length_le
  revert this
  decide

end Pistache.SendFile
