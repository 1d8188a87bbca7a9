import Mathlib.Data.Nat.Digits.Lemmas
import Pistache.Http.HeadLines
import Pistache.Http.ResponseStream

/-!
# Values put into a response stream

`operator<<` of `ResponseStream`: the size of a value in hexadecimal, the text that a
`std::ostream` makes of it, and a CRLF behind either.  The stream is not set back to decimal
between the two, and `digitsCount` stops at a zero digit.

Principal results:

* `digitsCount_eq` — what `digitsCount` counts.
* `streamedValue_iff` — the values that are written with their length in front.
-/

set_option autoImplicit false

namespace Pistache.Http.ResponseStream

open Chunked (crlf)

/-! ## The values -/

/-- An integer type of `DEFINE_INTEGRAL_SIZE`. -/
structure IntType where
  bits : Nat
  signed : Bool
  deriving DecidableEq

def uint8_t : IntType := ⟨8, false⟩
def int8_t : IntType := ⟨8, true⟩
def uint16_t : IntType := ⟨16, false⟩
def int16_t : IntType := ⟨16, true⟩
def uint32_t : IntType := ⟨32, false⟩
def int32_t : IntType := ⟨32, true⟩
def uint64_t : IntType := ⟨64, false⟩
def int64_t : IntType := ⟨64, true⟩

/-- The types that `Size` is defined for. -/
def integralTypes : List IntType :=
  [uint8_t, int8_t, uint16_t, int16_t, uint32_t, int32_t, uint64_t, int64_t]

/-- The numbers of a type. -/
def IntType.Holds (t : IntType) (val : Int) : Prop :=
  if t.signed then -2 ^ (t.bits - 1) ≤ val ∧ val < 2 ^ (t.bits - 1) else 0 ≤ val ∧ val < 2 ^ t.bits

instance (t : IntType) (val : Int) : Decidable (t.Holds val) := by
  unfold IntType.Holds; infer_instance

/-- The number with the same bits in the unsigned type. -/
def IntType.unsigned (t : IntType) (val : Int) : Nat := (val % 2 ^ t.bits).toNat

/-- A value of a type that `operator<<` takes; texts are in memory, up to a NUL at least. -/
inductive Streamed where
  | cstr (mem : Bytes) (h : (0 : UInt8) ∈ mem)
  | array (chars : Bytes) (h : (0 : UInt8) ∈ chars)
  | int (t : IntType) (ht : t ∈ integralTypes) (val : Int) (h : t.Holds val)
  | bool (val : Bool)
  | char (val : UInt8)

/-- `strlen`, and the characters that it counts. -/
def cstrText (mem : Bytes) : Bytes := mem.takeWhile (· ≠ 0)
def strlen (mem : Bytes) : Nat := (cstrText mem).length

/-! ## The operator -/

def digitsCountLoop : Nat → Int → Nat → Nat
  | 0, _, digits => digits
  | fuel + 1, val, digits =>
    if val.tmod 10 ≠ 0 then digitsCountLoop fuel (val.tdiv 10) (digits + 1) else digits

/-- `digitsCount`; the division brings the number closer to zero. -/
def digitsCount (val : Int) : Nat := digitsCountLoop (val.natAbs + 1) val 0

/-- `Size<T>`. -/
def Streamed.size : Streamed → Nat
  | .cstr mem _ => strlen mem
  | .array chars _ => chars.length - 1
  | .int _ _ val _ => digitsCount val
  | .bool _ => 1
  | .char _ => 1

/-- `os << val` behind a `std::hex`: a number of eight bits is a character, and a negative
number is written with its bits. -/
def Streamed.text : Streamed → Bytes
  | .cstr mem _ => cstrText mem
  | .array chars _ => cstrText chars
  | .int t _ val _ =>
    if t.bits = 8 then [UInt8.ofNat (t.unsigned val)] else numeral 16 (t.unsigned val)
  | .bool val => numeral 16 (if val then 1 else 0)
  | .char val => [val]

/-- `operator<<`. -/
def insert (stream : ResponseStream) (x : Streamed) : ResponseStream :=
  let os : Ostream := { buf := stream.buf_ }
  let os := (os.write (numeral 16 x.size)).write crlf
  let os := (os.write x.text).write crlf
  { stream with buf_ := os.buf }

/-! ## What is written -/

/-- What the operator writes. -/
def Streamed.written (x : Streamed) : Bytes := numeral 16 x.size ++ crlf ++ x.text ++ crlf

theorem insert_data {stream : ResponseStream} {x : Streamed}
    (h : x.written.length ≤ stream.buf_.free) :
    (stream.insert x).buf_.data = stream.buf_.data ++ x.written := by
  have hwrite : (stream.insert x).buf_ =
      (({ buf := stream.buf_ } : Ostream).write x.written).buf := by
    simp [insert, Streamed.written]
  rw [hwrite, Ostream.write_fits rfl h, DynamicStreamBuf.sputn_data h]

/-- Whatever stream has room for it, the value is written as a chunk: a length, and between two
CRLF as many bytes. -/
def Framed (x : Streamed) : Prop :=
  ∀ stream : ResponseStream, x.written.length ≤ stream.buf_.free →
    ∃ body, (stream.insert x).buf_.data = stream.buf_.data ++ chunk body

theorem numeral_hex_oneLine (n : Nat) : OneLine (numeral 16 n) := by
  have hdigit : ∀ d, d < 16 → digitChar d ≠ CR := by decide
  refine oneLine_of_not_mem ?_
  unfold numeral
  split
  · decide
  · intro hin
    obtain ⟨d, hd, heq⟩ := List.mem_map.mp hin
    exact hdigit d (Nat.digits_lt_base (by decide) (List.mem_reverse.mp hd)) heq

/-- A length in front of a text is read in one way. -/
theorem chunk_unique {n : Nat} {text body : Bytes}
    (h : numeral 16 n ++ crlf ++ text ++ crlf = chunk body) : n = body.length ∧ text = body := by
  have hsplit : numeral 16 n ++ CR :: LF :: (text ++ crlf) =
      numeral 16 body.length ++ CR :: LF :: (body ++ crlf) := by
    simpa [chunk, crlf] using h
  have hline := (numeral_hex_oneLine n).untilEol (text ++ crlf)
  rw [hsplit, (numeral_hex_oneLine body.length).untilEol, Option.some.injEq, Prod.mk.injEq] at hline
  obtain ⟨hsize, hrest⟩ := hline
  constructor
  · have hn := digitsValue_numeral (show 1 < 16 by decide) (by decide) n
    have hbody := digitsValue_numeral (show 1 < 16 by decide) (by decide) body.length
    rw [← hsize, hbody] at hn
    exact (Option.some.inj hn).symm
  · rw [List.cons.injEq, List.cons.injEq] at hrest
    exact (List.append_cancel_right hrest.2.2).symm

/-- **The size in front is that of the text** of a value that is written as a chunk. -/
theorem framed_size {x : Streamed} : Framed x ↔ x.size = x.text.length := by
  constructor
  · intro h
    have hroom : x.written.length ≤ (start [] x.written.length (Nat.zero_le _)).buf_.free :=
      Nat.le_refl _
    obtain ⟨body, hbody⟩ := h _ hroom
    rw [insert_data hroom] at hbody
    obtain ⟨hsize, htext⟩ := chunk_unique (List.append_cancel_left hbody)
    rw [hsize, htext]
  · intro h stream hroom
    refine ⟨x.text, ?_⟩
    rw [insert_data hroom, Streamed.written, h]
    rfl

/-! ## Digits -/

/-- The decimal digits behind the last zero, or all of them. -/
def lastDigits (n : Nat) : Nat := ((Nat.digits 10 n).takeWhile (· ≠ 0)).length

theorem lastDigits_zero {n : Nat} (h : n % 10 = 0) : lastDigits n = 0 := by
  unfold lastDigits
  cases n with
  | zero => rfl
  | succ n =>
    rw [Nat.digits_def' (by decide) (Nat.succ_pos n), h]
    rfl

theorem lastDigits_succ {n : Nat} (h : n % 10 ≠ 0) : lastDigits n = lastDigits (n / 10) + 1 := by
  have hpos : 0 < n := by omega
  unfold lastDigits
  rw [Nat.digits_def' (by decide) hpos, List.takeWhile_cons, if_pos (by simpa using h),
    List.length_cons]

/-- One digit in each turn of the loop, until one is zero. -/
theorem digitsCountLoop_eq : ∀ (fuel : Nat) (val : Int) (digits : Nat), val.natAbs < fuel →
    digitsCountLoop fuel val digits = digits + lastDigits val.natAbs
  | 0, _, _, h => absurd h (Nat.not_lt_zero _)
  | fuel + 1, val, digits, h => by
    have hmod : val.tmod 10 = 0 ↔ val.natAbs % 10 = 0 := by
      rw [← Int.natAbs_eq_zero, Int.natAbs_tmod]
      rfl
    have hdiv : (val.tdiv 10).natAbs = val.natAbs / 10 := Int.natAbs_tdiv val 10
    unfold digitsCountLoop
    by_cases hzero : val.natAbs % 10 = 0
    · rw [if_neg (not_not.mpr (hmod.mpr hzero)), lastDigits_zero hzero]
      rfl
    · have hlt : val.natAbs / 10 < fuel := by omega
      rw [if_pos (mt hmod.mp hzero), digitsCountLoop_eq fuel _ _ (by rw [hdiv]; exact hlt), hdiv,
        lastDigits_succ hzero]
      omega

/-- **`digitsCount`** counts the digits behind the last zero. -/
theorem digitsCount_eq (val : Int) : digitsCount val = lastDigits val.natAbs := by
  rw [digitsCount, digitsCountLoop_eq _ _ _ (Nat.lt_succ_self _), Nat.zero_add]

/-- How many digits there are in a numeral. -/
theorem numeral_length {n k : Nat} : (numeral 16 n).length = k + 1 ↔
    n < 16 ^ (k + 1) ∧ (16 ^ k ≤ n ∨ k = 0) := by
  unfold numeral
  split
  · rename_i hzero
    subst hzero
    have hpow : ∀ m, 0 < 16 ^ m := fun m => Nat.pow_pos (by decide)
    have hk := hpow k
    have hk' := hpow (k + 1)
    show 1 = k + 1 ↔ _
    omega
  · rename_i hpos
    have hle := Nat.digits_length_le_iff (b := 16) (k := k + 1) (by decide) n
    have hlt := Nat.lt_digits_length_iff (b := 16) (k := k) (by decide) n
    have hne : 0 < (Nat.digits 16 n).length := by
      rw [List.length_pos_iff]
      exact Nat.digits_ne_nil_iff_ne_zero.mpr hpos
    rw [List.length_map, List.length_reverse]
    omega

/-! ## The values that are framed -/

/-- The decimal digits of a number behind its last zero are as many as its hexadecimal digits,
or as the one character of a number of eight bits; a text has no NUL but its last one. -/
def Streamed.Measured : Streamed → Prop
  | .cstr _ _ => True
  | .array chars _ => (0 : UInt8) ∉ chars.dropLast
  | .int t _ val _ =>
    if t.bits = 8 then lastDigits val.natAbs = 1
    else 0 < lastDigits val.natAbs ∧ t.unsigned val < 16 ^ lastDigits val.natAbs ∧
      (16 ^ (lastDigits val.natAbs - 1) ≤ t.unsigned val ∨ lastDigits val.natAbs = 1)
  | .bool _ => True
  | .char _ => True

theorem array_size {chars : Bytes} (h : (0 : UInt8) ∈ chars) :
    chars.length - 1 = (cstrText chars).length ↔ (0 : UInt8) ∉ chars.dropLast := by
  obtain ⟨front, back, rfl, hfront⟩ := List.eq_append_cons_of_mem h
  have hall : ∀ c ∈ front, decide (c ≠ 0) = true := fun c hc => by
    rw [decide_eq_true_iff]
    rintro rfl
    exact hfront hc
  have htext : cstrText (front ++ 0 :: back) = front := by
    rw [cstrText, List.takeWhile_append_of_pos hall]
    simp
  rw [htext, List.length_append, List.length_cons]
  cases back with
  | nil => simp [hfront]
  | cons c back =>
    have hin : (0 : UInt8) ∈ (front ++ 0 :: c :: back).dropLast := by
      rw [List.dropLast_append_of_ne_nil (by simp)]
      simp
    constructor
    · intro hlength
      rw [List.length_cons] at hlength
      omega
    · intro hnot
      exact absurd hin hnot

theorem numeral_size {n k : Nat} : k = (numeral 16 n).length ↔
    0 < k ∧ n < 16 ^ k ∧ (16 ^ (k - 1) ≤ n ∨ k = 1) := by
  cases k with
  | zero =>
    have hpos := List.length_pos_iff.mpr (numeral_ne_nil 16 n)
    omega
  | succ k =>
    rw [eq_comm, numeral_length, Nat.add_sub_cancel]
    omega

/-- **A value is written with its length in front** if and only if the digits that
`digitsCount` counts are as many as are written. -/
theorem streamedValue_iff (x : Streamed) : Framed x ↔ x.Measured := by
  rw [framed_size]
  cases x with
  | cstr mem h => exact iff_of_true rfl trivial
  | array chars h => exact array_size h
  | int t ht val h =>
    show digitsCount val = _ ↔ _
    rw [digitsCount_eq]
    unfold Streamed.Measured Streamed.text
    dsimp only
    split
    · exact Iff.rfl
    · exact numeral_size
  | bool val => cases val <;> exact iff_of_true rfl trivial
  | char val => exact iff_of_true rfl trivial

/-- Ten is put in as `0`, which ends the body, and an `a` behind it. -/
theorem insert_ten :
    ((start [] 64 (by decide)).insert (.int int32_t (by decide) 10 (by decide))).buf_.data =
        lit "0\r\na\r\n" ∧ ¬∀ x, Framed x := by
  refine ⟨by decide, fun h => ?_⟩
  have hten := framed_size.mp (h (.int int32_t (by decide) 10 (by decide)))
  exact absurd hten (by decide)

end Pistache.Http.ResponseStream
