import Mathlib.Algebra.Group.Int.Defs
import Mathlib.Algebra.GroupWithZero.Nat
import Mathlib.Data.List.TakeWhile

/-!
# Bytes and the C library's readers of numbers

A `char` of the source is a byte; a `std::string` is a list of bytes.  The functions of the
C and C++ standard libraries that the message steps use are written out here: `tolower`,
`strncmp` and `strncasecmp` against a literal, `std::from_chars` and `std::stoull`.
-/

set_option autoImplicit false

namespace Pistache

abbrev Bytes := List UInt8

/-- A string literal of the source. -/
def lit (s : String) : Bytes := s.toList.map fun c => c.toNat.toUInt8

def CR : UInt8 := 13
def LF : UInt8 := 10
def SP : UInt8 := 32
def HT : UInt8 := 9

/-- What `StreamCursor::current` gives at the end of the buffer: `Eof` as a `char`. -/
def eofChar : UInt8 := 255

/-! ## Characters -/

/-- `std::tolower` in the C locale. -/
def tolower (c : UInt8) : UInt8 := if 65 ≤ c ∧ c ≤ 90 then c + 32 else c

def isdigit (c : UInt8) : Bool := 48 ≤ c ∧ c ≤ 57

/-- The value of a digit in base sixteen or less. -/
def digitValue (c : UInt8) : Option Nat :=
  if 48 ≤ c ∧ c ≤ 57 then some (c.toNat - 48)
  else if 97 ≤ c ∧ c ≤ 102 then some (c.toNat - 87)
  else if 65 ≤ c ∧ c ≤ 70 then some (c.toNat - 55)
  else none

def isspace (c : UInt8) : Bool := c = 32 ∨ (9 ≤ c ∧ c ≤ 13)

/-! ## Comparisons -/

/-- `strncmp(text, literal, size) == 0` where `size` is the length of `text`; behind the
literal stands its terminating zero. -/
def strncmpEq : Bytes → Bytes → Bool
  | [], _ => true
  | c :: _, [] => c = 0
  | c :: text, d :: literal => c = d ∧ (c = 0 ∨ strncmpEq text literal)

/-- `strncasecmp(text, literal, size) == 0`. -/
def strncasecmpEq (text literal : Bytes) : Bool :=
  strncmpEq (text.map tolower) (literal.map tolower)

/-- What is not a small letter is lowered from itself only. -/
theorem tolower_eq {c d : UInt8} (hd : ¬(97 ≤ d ∧ d ≤ 122)) (h : tolower c = d) : c = d := by
  unfold tolower at h
  split at h
  · rename_i hupper
    exfalso
    refine hd ?_
    subst h
    obtain ⟨h₁, h₂⟩ := hupper
    rw [UInt8.le_iff_toNat_le] at h₁ h₂ ⊢
    rw [UInt8.le_iff_toNat_le, UInt8.toNat_add]
    have e₁ : (65 : UInt8).toNat = 65 := rfl
    have e₂ : (90 : UInt8).toNat = 90 := rfl
    have e₃ : (32 : UInt8).toNat = 32 := rfl
    have e₄ : (97 : UInt8).toNat = 97 := rfl
    have e₅ : (122 : UInt8).toNat = 122 := rfl
    omega
  · exact h

/-- `strncmp` with the size of the text: the text ends within the literal, or a NUL ends both. -/
theorem strncmpEq_iff : ∀ {text literal : Bytes}, (0 : UInt8) ∉ literal →
    (strncmpEq text literal = true ↔ text <+: literal ∨ literal ++ [0] <+: text)
  | [], literal, _ => by simp [strncmpEq]
  | c :: text, [], _ => by simp [strncmpEq, eq_comm]
  | c :: text, d :: literal, h => by
    rw [List.mem_cons, not_or] at h
    have ih : strncmpEq text literal = true ↔ text <+: literal ∨ literal ++ [0] <+: text :=
      strncmpEq_iff h.2
    simp only [strncmpEq, decide_eq_true_eq, Bool.decide_or, Bool.or_eq_true, Bool.decide_eq_true,
      List.cons_append, List.cons_prefix_cons, Bool.decide_and, Bool.and_eq_true]
    constructor
    · rintro ⟨rfl, hzero | hmore⟩
      · exact absurd hzero.symm h.1
      · exact (ih.mp hmore).imp (⟨rfl, ·⟩) (⟨rfl, ·⟩)
    · rintro (⟨rfl, hpre⟩ | ⟨rfl, hpre⟩)
      · exact ⟨rfl, .inr (ih.mpr (.inl hpre))⟩
      · exact ⟨rfl, .inr (ih.mpr (.inr hpre))⟩

/-- `Header::LowercaseEqualStatic`: only the first argument is lowered. -/
def LowercaseEqualStatic (dynamic statik : Bytes) : Bool := dynamic.map tolower = statik

/-! ## Numbers -/

/-- The value of a text of digits, `none` at a character that is no digit of the base. -/
def digitsValue (base : Nat) (acc : Nat) : Bytes → Option Nat
  | [] => some acc
  | c :: text =>
    match digitValue c with
    | some d => if d < base then digitsValue base (acc * base + d) text else none
    | none => none

def isDigitOf (base : Nat) (c : UInt8) : Bool :=
  match digitValue c with
  | some d => d < base
  | none => false

/-- How the conversions of the standard library fail. -/
inductive ConversionError where
  | invalidArgument
  | outOfRange
  deriving DecidableEq, Repr

/-- `std::from_chars` into a `size_t`: the value and what the returned pointer points at. -/
def from_chars (base : Nat) (text : Bytes) : Except ConversionError (Nat × Bytes) :=
  let digits := text.takeWhile (isDigitOf base)
  if digits = [] then .error .invalidArgument
  else
    match digitsValue base 0 digits with
    | some v => if v < 2 ^ 64 then .ok (v, text.dropWhile (isDigitOf base)) else .error .outOfRange
    | none => .error .invalidArgument

/-- `std::from_chars` into an `int`, base ten: one leading minus sign is allowed. -/
def from_charsInt (text : Bytes) : Except ConversionError (Int × Bytes) :=
  let negative := text.head? = some 45
  let text := if negative then text.drop 1 else text
  let digits := text.takeWhile (isDigitOf 10)
  if digits = [] then .error .invalidArgument
  else
    match digitsValue 10 0 digits with
    | some v =>
      let value : Int := if negative then -(v : Int) else v
      if -(2 ^ 31 : Int) ≤ value ∧ value < 2 ^ 31 then
        .ok (value, text.dropWhile (isDigitOf 10))
      else .error .outOfRange
    | none => .error .invalidArgument

/-- `std::stoull`, base ten: white space, a sign, digits; the rest of the text is ignored.
A negated value is taken modulo `2 ^ 64`. -/
def stoull (text : Bytes) : Except ConversionError UInt64 :=
  let text := text.dropWhile isspace
  let negative := text.head? = some 45
  let text := if negative ∨ text.head? = some 43 then text.drop 1 else text
  let digits := text.takeWhile (isDigitOf 10)
  if digits = [] then .error .invalidArgument
  else
    match digitsValue 10 0 digits with
    | some v =>
      if v < 2 ^ 64 then .ok (if negative then 0 - UInt64.ofNat v else UInt64.ofNat v)
      else .error .outOfRange
    | none => .error .invalidArgument

/-! ## Reading whole texts of digits -/

theorem digitsValue_isSome_takeWhile {base acc v : Nat} {text : Bytes}
    (h : digitsValue base acc text = some v) : ∀ c ∈ text, isDigitOf base c = true := by
  induction text generalizing acc with
  | nil => simp
  | cons c text ih =>
    unfold digitsValue at h
    split at h
    · rename_i d hd
      split at h
      · rename_i hlt
        intro x hx
        rcases List.mem_cons.mp hx with rfl | hx
        · simp [isDigitOf, hd, hlt]
        · exact ih h x hx
      · cases h
    · cases h

/-- A digit is no white space, no sign and not the zero at the end of a text. -/
theorem digit_plain {c : UInt8} (hc : isDigitOf 10 c = true) :
    isspace c = false ∧ c ≠ 45 ∧ c ≠ 43 ∧ c ≠ 0 := by
  refine ⟨?_, ?_, ?_, ?_⟩
  · rw [Bool.eq_false_iff]
    intro hsp
    unfold isDigitOf digitValue at hc
    simp only [isspace, Bool.decide_or, Bool.or_eq_true, decide_eq_true_eq] at hsp
    rcases hsp with rfl | ⟨h₁, h₂⟩
    · simp at hc
    · have hlow : ¬48 ≤ c := fun h => absurd (UInt8.le_trans h h₂) (by decide)
      have hlow' : ¬97 ≤ c := fun h => absurd (UInt8.le_trans h h₂) (by decide)
      have hlow'' : ¬65 ≤ c := fun h => absurd (UInt8.le_trans h h₂) (by decide)
      simp [hlow, hlow', hlow''] at hc
  all_goals
    rintro rfl
    simp [isDigitOf, digitValue] at hc

/-- A text of digits is read whole. -/
theorem from_chars_digits {base v : Nat} {text : Bytes} (hne : text ≠ [])
    (h : digitsValue base 0 text = some v) (hv : v < 2 ^ 64) :
    from_chars base text = .ok (v, []) := by
  have hall := digitsValue_isSome_takeWhile h
  have htake : text.takeWhile (isDigitOf base) = text := by
    rw [List.takeWhile_eq_self_iff]; exact hall
  have hdrop : text.dropWhile (isDigitOf base) = [] := by
    rw [List.dropWhile_eq_nil_iff]; exact hall
  simp only [from_chars, htake, hdrop, h, if_neg hne, if_pos hv]

/-- A text of digits whose value does not fit. -/
theorem from_chars_long {base v : Nat} {text : Bytes} (h : digitsValue base 0 text = some v)
    (hv : ¬v < 2 ^ 64) : ∃ e, from_chars base text = .error e := by
  have hall := digitsValue_isSome_takeWhile h
  have htake : text.takeWhile (isDigitOf base) = text := by
    rw [List.takeWhile_eq_self_iff]; exact hall
  by_cases hne : text = []
  · exact ⟨.invalidArgument, by simp [from_chars, hne]⟩
  · exact ⟨.outOfRange, by simp only [from_chars, htake, h, if_neg hne, if_neg hv]⟩

theorem CR_not_digit (base : Nat) : isDigitOf base CR = false := by
  have : digitValue CR = none := by decide
  simp [isDigitOf, this]

end Pistache
