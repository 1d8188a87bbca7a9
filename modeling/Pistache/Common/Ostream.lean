import Mathlib.Data.Nat.Digits.Defs
import Mathlib.Tactic.IntervalCases
import Pistache.Common.Bytes

/-!
# Output streams

`DynamicStreamBuf`, the buffer that a message is written into, and a `std::ostream` over it,
which goes bad at the first text that the buffer can not take whole and drops what comes after
it.  `numeral` is the text that `operator<<` makes of an unsigned number.

* `digitsValue_numeral` — the readers of numbers read a numeral back.
* `Ostream.write_write` — two texts one after the other are one text.
-/

set_option autoImplicit false

namespace Pistache

/-! ## Numerals -/

/-- The digit, in lower case. -/
def digitChar (d : Nat) : UInt8 := if d < 10 then UInt8.ofNat (48 + d) else UInt8.ofNat (87 + d)

/-- `os << n`, with `std::hex` for base sixteen. -/
def numeral (base n : Nat) : Bytes :=
  if n = 0 then [digitChar 0] else (base.digits n).reverse.map digitChar

theorem digitValue_digitChar {d : Nat} (hd : d < 16) : digitValue (digitChar d) = some d := by
  interval_cases d <;> rfl

theorem digitsValue_append {base acc v : Nat} {text : Bytes} (h : digitsValue base acc text = some v)
    (rest : Bytes) : digitsValue base acc (text ++ rest) = digitsValue base v rest := by
  induction text generalizing acc with
  | nil =>
    cases h
    rfl
  | cons c text ih =>
    unfold digitsValue at h
    cases hc : digitValue c with
    | none => simp [hc] at h
    | some d =>
      simp only [hc] at h
      by_cases hd : d < base
      · rw [if_pos hd] at h
        simp only [List.cons_append, digitsValue, hc, if_pos hd]
        exact ih h
      · simp [hd] at h

theorem numeral_ne_nil (base n : Nat) : numeral base n ≠ [] := by
  unfold numeral
  split
  · simp
  · rename_i hn
    simpa using Nat.digits_ne_nil_iff_ne_zero.mpr hn

/-- The digits of a number, the highest first, are read back. -/
theorem digitsValue_digits {base : Nat} (hbase : 1 < base) (hle : base ≤ 16) (n : Nat) :
    digitsValue base 0 ((base.digits n).reverse.map digitChar) = some n := by
  induction n using Nat.strongRecOn with
  | _ n ih =>
    by_cases hn : n = 0
    · simp [hn, digitsValue]
    · have hpos : 0 < n := Nat.pos_of_ne_zero hn
      have hdigit : n % base < base := Nat.mod_lt n (by omega)
      rw [Nat.digits_def' hbase hpos, List.reverse_cons, List.map_append,
        digitsValue_append (ih (n / base) (Nat.div_lt_self hpos hbase))]
      simp only [List.map_cons, List.map_nil, digitsValue,
        digitValue_digitChar (hdigit.trans_le hle), if_pos hdigit, Option.some.injEq]
      rw [Nat.mul_comm]
      exact Nat.div_add_mod n base

/-- **A numeral is read back.** -/
theorem digitsValue_numeral {base : Nat} (hbase : 1 < base) (hle : base ≤ 16) (n : Nat) :
    digitsValue base 0 (numeral base n) = some n := by
  unfold numeral
  split
  · rename_i hn
    have hzero : (0 : Nat) < base := by omega
    simp [digitsValue, digitValue_digitChar, hzero, hn]
  · exact digitsValue_digits hbase hle n

/-! ## The buffer -/

/-- `DynamicStreamBuf`: what has been written, and the size it may grow to. -/
@[ext] structure DynamicStreamBuf where
  data : Bytes
  maxSize : Nat
  data_le : data.length ≤ maxSize
  deriving DecidableEq

namespace DynamicStreamBuf

/-- The bytes that `overflow` still takes. -/
def free (buf : DynamicStreamBuf) : Nat := buf.maxSize - buf.data.length

/-- `sputn`: what does not fit is dropped. -/
def sputn (buf : DynamicStreamBuf) (text : Bytes) : DynamicStreamBuf where
  data := buf.data ++ text.take buf.free
  maxSize := buf.maxSize
  data_le := by
    have := buf.data_le
    simp only [List.length_append, List.length_take, free]
    omega

def clear (buf : DynamicStreamBuf) : DynamicStreamBuf := ⟨[], buf.maxSize, Nat.zero_le _⟩

variable {buf : DynamicStreamBuf} {text : Bytes}

@[simp] theorem sputn_maxSize : (buf.sputn text).maxSize = buf.maxSize := rfl

theorem sputn_take (buf : DynamicStreamBuf) (text : Bytes) :
    (buf.sputn text).data = buf.data ++ text.take buf.free := rfl

@[simp] theorem clear_data : buf.clear.data = [] := rfl
@[simp] theorem clear_maxSize : buf.clear.maxSize = buf.maxSize := rfl

theorem sputn_data (h : text.length ≤ buf.free) : (buf.sputn text).data = buf.data ++ text := by
  rw [sputn_take, List.take_of_length_le h]

/-- What is left of the room, however much of the text has been taken. -/
theorem free_sputn (buf : DynamicStreamBuf) (text : Bytes) :
    (buf.sputn text).free = buf.free - text.length := by
  have hle := buf.data_le
  simp only [free, sputn_maxSize, sputn_take, List.length_append, List.length_take]
  omega

/-- Two texts one after the other are one text. -/
theorem sputn_sputn (buf : DynamicStreamBuf) (a b : Bytes) :
    (buf.sputn a).sputn b = buf.sputn (a ++ b) := by
  refine DynamicStreamBuf.ext ?_ rfl
  rw [sputn_take, sputn_take, sputn_take, free_sputn, List.append_assoc, List.take_append]

/-- A text that is refused leaves the buffer as it is. -/
theorem sputn_refused (h : buf.free = 0) : buf.sputn text = buf := by
  refine DynamicStreamBuf.ext ?_ rfl
  rw [sputn_take, h, List.take_zero, List.append_nil]

end DynamicStreamBuf

/-! ## The stream -/

/-- A `std::ostream` over the buffer, with its `badbit`. -/
structure Ostream where
  buf : DynamicStreamBuf
  bad : Bool := false
  deriving DecidableEq

namespace Ostream

/-- `os.write(text)`, `os << text`. -/
def write (os : Ostream) (text : Bytes) : Ostream :=
  if os.bad then os else ⟨os.buf.sputn text, os.buf.free < text.length⟩

variable {os : Ostream} {text : Bytes}

theorem write_bad (h : os.bad = true) : os.write text = os := if_pos h

theorem write_fits (h : os.bad = false) (hfits : text.length ≤ os.buf.free) :
    os.write text = ⟨os.buf.sputn text, false⟩ := by
  rw [write, if_neg (by simp [h])]
  simp [Nat.not_lt.mpr hfits]

/-- **One text after the other.** -/
@[simp] theorem write_write (os : Ostream) (a b : Bytes) :
    (os.write a).write b = os.write (a ++ b) := by
  cases hbad : os.bad with
  | true => rw [write_bad hbad, write_bad hbad, write_bad hbad]
  | false =>
    by_cases ha : a.length ≤ os.buf.free
    · rw [write_fits hbad ha]
      simp only [write, hbad, Bool.false_eq_true, if_false, DynamicStreamBuf.free_sputn,
        List.length_append, Ostream.mk.injEq]
      constructor
      · exact DynamicStreamBuf.sputn_sputn os.buf a b
      · rw [decide_eq_decide]
        omega
    · have hlong : os.buf.free < a.length := Nat.lt_of_not_le ha
      have hlong' : os.buf.free < a.length + b.length := by omega
      have hbad' : (os.write a).bad = true := by simp [write, hbad, hlong]
      rw [write_bad hbad']
      simp only [write, hbad, Bool.false_eq_true, if_false, List.length_append, hlong, hlong',
        Ostream.mk.injEq, and_true]
      refine DynamicStreamBuf.ext ?_ rfl
      rw [DynamicStreamBuf.sputn_take, DynamicStreamBuf.sputn_take, List.take_append,
        Nat.sub_eq_zero_of_le hlong.le, List.take_zero, List.append_nil]

end Ostream

end Pistache
