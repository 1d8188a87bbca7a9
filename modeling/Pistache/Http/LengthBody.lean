import Mathlib.Data.Nat.Find
import Pistache.Http.Chunked

/-!
# Bodies of declared length, piece by piece

`parseContentLength` called for one piece of the body after the other, until it asks for no
more.  Between the calls `bytesRead` counts what has been appended to the body.

* `Decoder.feedLength_reading` — one more piece behind what has been read already.
* `Decoder.readLength_calls` — every call gives what the pieces so far make due, and the call
  that sees the last of the declared bytes is done.
-/

set_option autoImplicit false

namespace Pistache.Http.Chunked.Decoder

variable {H : Type}

/-- Feed a piece and call `parseContentLength`; `none` when the buffer refuses the piece. -/
def feedLength (n : UInt64) (d : Decoder H) (piece : Bytes) : Option (State × Decoder H) :=
  (d.buffer.feed piece).map fun buffer =>
    let o := BodyStep.parseContentLength n (d.step, d.message) buffer.unread
    (o.result, { buffer := buffer.advanceTo o.rest, step := o.state.1, message := o.state.2 })

/-- The calls for the pieces, up to the first that does not ask for more: what each of them
returns, with what it leaves. -/
def readLength (n : UInt64) : Decoder H → List Bytes → Option (List (State × Decoder H))
  | _, [] => some []
  | d, piece :: pieces =>
    match feedLength n d piece with
    | none => none
    | some (.Again, d) => (readLength n d pieces).map ((.Again, d) :: ·)
    | some call => some [call]

/-- Nothing of the body has been read. -/
structure Fresh (d : Decoder H) : Prop where
  bytesRead : d.step.bytesRead = 0
  no_body : d.message.body_ = []
  unread : d.buffer.unread = []

/-- The reader `d` that has taken the bytes `fed` and waits for more of the body. -/
def reading (d : Decoder H) (fed : Bytes) : Decoder H where
  buffer := { d.buffer with read := d.buffer.read ++ fed }
  step := { d.step with bytesRead := UInt64.ofNat fed.length }
  message := { d.message with body_ := fed }

/-- What a call returns and leaves when the bytes `fed` of a body of `n` bytes, and whatever
follows it, have been fed to the reader `d`. -/
def due (n : UInt64) (d : Decoder H) (fed : Bytes) : State × Decoder H :=
  if fed.length < n.toNat then (.Again, d.reading fed)
  else
    (.Done,
      { buffer :=
          { d.buffer with
            read := d.buffer.read ++ fed.take n.toNat
            unread := fed.drop n.toNat }
        step := { d.step with bytesRead := 0 }
        message := { d.message with body_ := fed.take n.toNat } })

variable {n : UInt64} {d : Decoder H}

theorem Fresh.reading_nil (h : d.Fresh) : d.reading [] = d := by
  obtain ⟨⟨read, unread, maxSize⟩, ⟨bytesRead, chunk⟩, message⟩ := d
  obtain rfl : bytesRead = 0 := h.bytesRead
  have hmessage : { message with body_ := [] } = message := by
    rw [← h.no_body]
  simp only [reading, List.append_nil, hmessage]
  rfl

/-- `bytesRead` never exceeds the declared length. -/
theorem due_bytesRead_le (n : UInt64) (d : Decoder H) (fed : Bytes) :
    (due n d fed).2.step.bytesRead ≤ n := by
  rw [UInt64.le_iff_toNat_le]
  unfold due
  split
  · rename_i h
    have hread : (UInt64.ofNat fed.length).toNat = fed.length := by
      rw [UInt64.toNat_ofNat']
      exact Nat.mod_eq_of_lt (h.trans (UInt64.toNat_lt n))
    show (UInt64.ofNat fed.length).toNat ≤ n.toNat
    omega
  · exact Nat.zero_le _

/-- What is missing behind the bytes `fed`; a first call has seen none. -/
theorem missing_reading {fed : Bytes} (h : fed = [] ∨ fed.length < n.toNat) :
    (BodyStep.missing n (d.reading fed).step).toNat = n.toNat - fed.length := by
  have hnone : (BodyStep.missing n { d.step with bytesRead := 0 }).toNat = n.toNat := by
    rw [BodyStep.missing, UInt64.sub_zero]
  rcases h with rfl | h
  · exact hnone
  · have hadd := BodyStep.missing_add
      (n := fed.length) (by rw [hnone]; exact h)
    rw [hnone] at hadd
    simpa [reading] using hadd

/-- **One more piece**, behind bytes of the body that have been read. -/
theorem feedLength_reading {fed : Bytes} (h : fed = [] ∨ fed.length < n.toNat)
    (hunread : d.buffer.unread = []) {x : Bytes}
    (hfit : d.buffer.bytes.length + (fed ++ x).length ≤ d.buffer.maxSize) :
    feedLength n (d.reading fed) x = some (due n d (fed ++ x)) := by
  have hle : fed.length ≤ n.toNat := by
    rcases h with rfl | h
    · exact Nat.zero_le _
    · exact Nat.le_of_lt h
  have hfeed : (d.reading fed).buffer.feed x =
      some { d.buffer with read := d.buffer.read ++ fed, unread := x } := by
    refine ArrayStreamBuf.feed_eq_some.mpr ⟨?_, by simp [reading, hunread]⟩
    simp only [reading, ArrayStreamBuf.bytes, hunread, List.append_nil, List.length_append] at hfit ⊢
    omega
  rw [feedLength, hfeed, Option.map_some]
  dsimp only
  rw [BodyStep.parseContentLength_eq, missing_reading h]
  by_cases hlt : (fed ++ x).length < n.toNat
  · have hx : x.length < n.toNat - fed.length := by
      rw [List.length_append] at hlt
      omega
    rw [if_pos hx, due, if_pos hlt]
    simp only [reading, ArrayStreamBuf.advanceTo, List.length_nil, Nat.sub_zero, List.take_length,
      List.append_assoc, Message.append, List.length_append, UInt64.ofNat_add, hunread]
  · have hx : ¬x.length < n.toNat - fed.length := by
      rw [List.length_append] at hlt
      omega
    have htake : (fed ++ x).take n.toNat = fed ++ x.take (n.toNat - fed.length) := by
      rw [List.take_append, List.take_of_length_le hle]
    have hdrop : (fed ++ x).drop n.toNat = x.drop (n.toNat - fed.length) := by
      rw [List.drop_append, List.drop_of_length_le hle, List.nil_append]
    have hread : x.length - (x.length - (n.toNat - fed.length)) = n.toNat - fed.length := by
      omega
    rw [if_neg hx, due, if_neg hlt, htake, hdrop]
    simp only [reading, ArrayStreamBuf.advanceTo, List.length_drop, hread, List.append_assoc,
      Message.append]

/-- The calls for the pieces behind the bytes `fed`: one for each piece in front of which
bytes are missing. -/
theorem readLength_reading (hunread : d.buffer.unread = []) :
    ∀ (pieces : List Bytes) {fed : Bytes}, (fed = [] ∨ fed.length < n.toNat) →
      d.buffer.bytes.length + (fed ++ pieces.flatten).length ≤ d.buffer.maxSize →
      ∃ calls, readLength n (d.reading fed) pieces = some calls ∧
        ∀ i, calls[i]? =
          if i < pieces.length ∧ ∀ j < i, (fed ++ (pieces.take (j + 1)).flatten).length < n.toNat
          then some (due n d (fed ++ (pieces.take (i + 1)).flatten)) else none
  | [], _, _, _ => ⟨[], rfl, fun i => by simp⟩
  | x :: xs, fed, h, hfit => by
    rw [List.flatten_cons, ← List.append_assoc] at hfit
    have hstep := feedLength_reading h hunread (x := x)
      (by rw [List.length_append] at hfit; omega)
    have htake : ∀ j, fed ++ ((x :: xs).take (j + 1)).flatten =
        (fed ++ x) ++ (xs.take j).flatten := fun j => by simp
    by_cases hlt : (fed ++ x).length < n.toNat
    · obtain ⟨calls, hcalls, hget⟩ := readLength_reading hunread xs (.inr hlt) hfit
      have hdue : due n d (fed ++ x) = (.Again, d.reading (fed ++ x)) := if_pos hlt
      refine ⟨(.Again, d.reading (fed ++ x)) :: calls, ?_, fun i => ?_⟩
      · rw [readLength, hstep, hdue]
        simp only [hcalls, Option.map_some]
      · cases i with
        | zero => simp [hdue]
        | succ i =>
          simp only [List.getElem?_cons_succ, hget i, htake, List.length_cons,
            Nat.add_lt_add_iff_right, Nat.forall_lt_succ_left, List.take_zero, List.flatten_nil,
            List.append_nil, hlt, true_and]
    · have hdue : (due n d (fed ++ x)).1 = .Done := by
        rw [due, if_neg hlt]
      refine ⟨[due n d (fed ++ x)], ?_, fun i => ?_⟩
      · rw [readLength, hstep]
        cases hcall : due n d (fed ++ x) with
        | mk result left =>
          rw [hcall] at hdue
          dsimp only at hdue
          subst hdue
          rfl
      · cases i with
        | zero => simp
        | succ i =>
          -- no call behind the one that is done
          have hstop : ¬∀ j < i + 1, (fed ++ ((x :: xs).take (j + 1)).flatten).length < n.toNat := by
            intro hall
            refine hlt ?_
            simpa using hall 0 (Nat.succ_pos i)
          rw [if_neg (fun hi => hstop hi.2)]
          rfl

/-- **A body of declared length in pieces.**  There is a call for a piece exactly while the
pieces in front of it hold fewer than `n` bytes.  It asks for more while fewer than `n` bytes
have been fed, with all of them in the body, and is done at the first `n` bytes, with these in
the body, the cursor behind them and `bytesRead` back at zero; so a body that comes whole is
read.  `bytesRead` never exceeds `n`. -/
theorem readLength_calls (n : UInt64) (d : Decoder H) (hfresh : d.Fresh) (pieces : List Bytes)
    (hfit : d.buffer.bytes.length + pieces.flatten.length ≤ d.buffer.maxSize) :
    ∃ calls, readLength n d pieces = some calls ∧
      (∀ i, calls[i]? =
        if i < pieces.length ∧ ∀ j < i, (pieces.take (j + 1)).flatten.length < n.toNat
        then some (due n d (pieces.take (i + 1)).flatten) else none) ∧
      (∀ call ∈ calls, call.2.step.bytesRead ≤ n) ∧
      (pieces ≠ [] → n.toNat ≤ pieces.flatten.length → ∃ call ∈ calls, call.1 = .Done) := by
  obtain ⟨calls, hcalls, hget⟩ := readLength_reading hfresh.unread pieces (n := n)
    (.inl rfl) hfit
  rw [hfresh.reading_nil] at hcalls
  simp only [List.nil_append] at hget
  refine ⟨calls, hcalls, hget, ?_, ?_⟩
  · intro call hcall
    obtain ⟨i, hi⟩ := List.mem_iff_getElem?.mp hcall
    rw [hget i] at hi
    split at hi
    · obtain rfl := Option.some.inj hi
      exact due_bytesRead_le n d _
    · cases hi
  · intro hne hall
    have hpos : 0 < pieces.length := List.length_pos_iff.mpr hne
    have hends : ∃ k, n.toNat ≤ (pieces.take (k + 1)).flatten.length :=
      ⟨pieces.length - 1, by rwa [Nat.sub_add_cancel hpos, List.take_length]⟩
    -- the first piece that completes the body
    have hk := Nat.find_spec hends
    have hbefore : ∀ j < Nat.find hends, (pieces.take (j + 1)).flatten.length < n.toNat :=
      fun j hj => Nat.lt_of_not_le (Nat.find_min hends hj)
    have hlast : Nat.find hends ≤ pieces.length - 1 :=
      Nat.find_min' hends (by rwa [Nat.sub_add_cancel hpos, List.take_length])
    have hcall := hget (Nat.find hends)
    rw [if_pos ⟨by omega, hbefore⟩] at hcall
    refine ⟨_, List.mem_iff_getElem?.mpr ⟨_, hcall⟩, ?_⟩
    rw [due, if_neg (by omega)]

/-! ### Five bytes in three pieces -/

/-- A reader behind the head of a message whose body is to have five bytes. -/
def five : Decoder Unit where
  buffer := .new 4096
  step := {}
  message := { headers_ := ⟨[(lit "content-length", .ContentLength 5)], []⟩ }

theorem readLength_five : ∃ calls,
    readLength 5 five [lit "he", [], lit "llo!"] = some calls ∧ calls.length = 3 ∧
      (∃ call ∈ calls, call.1 = .Done) := by
  obtain ⟨calls, hcalls, -, -, hdone⟩ := readLength_calls 5 five ⟨rfl, rfl, rfl⟩
    [lit "he", [], lit "llo!"] (by decide)
  refine ⟨calls, hcalls, ?_, hdone (by decide) (by decide)⟩
  have hthree : (readLength 5 five [lit "he", [], lit "llo!"]).map List.length = some 3 := by
    decide
  rw [hcalls] at hthree
  exact Option.some.inj hthree

end Pistache.Http.Chunked.Decoder
