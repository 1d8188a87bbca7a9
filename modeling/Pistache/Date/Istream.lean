import Pistache.Common.Bytes

/-!
# Reading from a stream

A `std::istream` over a string, and the readers of the date library that its `from_stream` is
made of: `scan_keyword`, `read_unsigned`, `read_signed`, `read_long_double` and `read`.  A reader
that peeks at the end of the text sets the end bit, and one that finds the stream in a bad state
fails.

* `scan_keyword_longest` — the name that is read is the longest text at hand with which a keyword
  begins.
-/

set_option autoImplicit false

namespace Pistache.Date

/-- `std::toupper` in the C locale. -/
def toupper (c : UInt8) : UInt8 := if 97 ≤ c ∧ c ≤ 122 then c - 32 else c

/-- A `std::istringstream`: the text ahead and the state bits. -/
structure Istream where
  rest : Bytes
  eofbit : Bool
  failbit : Bool
  deriving DecidableEq, Repr

namespace Istream

def ofText (text : Bytes) : Istream := { rest := text, eofbit := false, failbit := false }

def good (is : Istream) : Bool := !is.eofbit && !is.failbit

def setFail (is : Istream) : Istream := { is with failbit := true }
def setEof (is : Istream) : Istream := { is with eofbit := true }

/-- `peek`: the sentry fails on a stream that is not good. -/
def peek (is : Istream) : Option UInt8 × Istream :=
  if is.good then
    match is.rest with
    | [] => (none, is.setEof)
    | c :: _ => (some c, is)
  else (none, is.setFail)

/-- `get`, after a `peek` that has found a character. -/
def get (is : Istream) : Istream := { is with rest := is.rest.drop 1 }

/-- `std::ws`, which the caller runs on a good stream. -/
def ws (is : Istream) : Istream :=
  let rest := is.rest.dropWhile isspace
  { is with rest, eofbit := rest = [] }

section

variable {text : Bytes} {c : UInt8}

@[simp] theorem ofText_rest : (ofText text).rest = text := rfl
@[simp] theorem ofText_good : (ofText text).good = true := rfl
@[simp] theorem ofText_failbit : (ofText text).failbit = false := rfl
@[simp] theorem ofText_eofbit : (ofText text).eofbit = false := rfl
@[simp] theorem setFail_failbit (is : Istream) : is.setFail.failbit = true := rfl
@[simp] theorem setEof_failbit (is : Istream) : is.setEof.failbit = is.failbit := rfl

theorem peek_cons : (ofText (c :: text)).peek = (some c, ofText (c :: text)) := rfl
theorem get_cons : (ofText (c :: text)).get = ofText text := rfl

/-- A stream without a fail bit on which `peek` finds a character is a good one. -/
theorem peek_some {is is' : Istream} (h : is.peek = (some c, is')) :
    ∃ text, is = ofText (c :: text) ∧ is' = is := by
  obtain ⟨rest, eofbit, failbit⟩ := is
  unfold peek at h
  cases eofbit <;> cases failbit <;> simp [good] at h
  cases rest with
  | nil => simp at h
  | cons d text =>
    simp only [Prod.mk.injEq, Option.some.injEq] at h
    obtain ⟨rfl, rfl⟩ := h
    exact ⟨text, rfl, rfl⟩

end

/-! ## Characters and numbers -/

/-- `read` with a character. -/
def read_char (a0 : UInt8) (is : Istream) : Istream :=
  match is.peek with
  | (none, is) => is.setFail.setEof
  | (some c, is) => if c = a0 then is.get else is.setFail

/-- The loop of `read_unsigned` on a good stream: the value and the number of digits. -/
def digitsLoop (M : Nat) : Bytes → Nat → Nat → (Nat × Nat) × Istream
  | [], x, count => ((x, count), (ofText []).setEof)
  | c :: rest, x, count =>
    if isdigit c then
      if count + 1 = M then ((10 * x + (c.toNat - 48), count + 1), ofText rest)
      else digitsLoop M rest (10 * x + (c.toNat - 48)) (count + 1)
    else ((x, count), ofText (c :: rest))

/-- `read_unsigned`. -/
def read_unsigned (m M : Nat) (is : Istream) : Nat × Istream :=
  let ((x, count), is) := if is.good then digitsLoop M is.rest 0 0 else ((0, 0), is.setFail)
  (x, if count < m then is.setFail else is)

/-- `read_signed`. -/
def read_signed (m M : Nat) (is : Istream) : Int × Istream :=
  match is.peek with
  | (none, is) => (0, if m > 0 then is.setFail else is)
  | (some c, is) =>
    if isdigit c ∨ c = 45 ∨ c = 43 then
      let is := if c = 45 ∨ c = 43 then is.get else is
      let (x, is) := read_unsigned (max m 1) (if c = 45 ∨ c = 43 then M - 1 else M) is
      if is.failbit then (0, is) else (if c = 45 then -x else x, is)
    else (0, if m > 0 then is.setFail else is)

/-- What `read_long_double` has read: the digits before and behind the point, and how many of
the latter. -/
structure Decimal where
  i : Nat
  f : Nat
  fcount : Nat
  deriving DecidableEq, Repr

/-- The loop of `read_long_double` on a good stream; `point` says that the point has been read. -/
def decimalLoop (M : Nat) : Bytes → Decimal → Bool → Nat → (Decimal × Nat) × Istream
  | [], x, _, count => ((x, count), (ofText []).setEof)
  | c :: rest, x, point, count =>
    if c = 46 ∧ point = false then
      if count + 1 = M then ((x, count + 1), ofText rest)
      else decimalLoop M rest x true (count + 1)
    else if isdigit c then
      let x := if point then { x with f := 10 * x.f + (c.toNat - 48), fcount := x.fcount + 1 }
        else { x with i := 10 * x.i + (c.toNat - 48) }
      if count + 1 = M then ((x, count + 1), ofText rest)
      else decimalLoop M rest x point (count + 1)
    else ((x, count), ofText (c :: rest))

/-- `read_long_double`. -/
def read_long_double (m M : Nat) (is : Istream) : Decimal × Istream :=
  let ((x, count), is) :=
    if is.good then decimalLoop M is.rest ⟨0, 0, 0⟩ false 0 else ((⟨0, 0, 0⟩, 0), is.setFail)
  if count < m then (⟨0, 0, 0⟩, is.setFail) else (x, is)

section Digits

variable {digits rest : Bytes} {c : UInt8} {M : Nat}

/-- The number that digits stand for behind those read before. -/
def value (x : Nat) (digits : Bytes) : Nat := digits.foldl (fun x c => 10 * x + (c.toNat - 48)) x

/-- The text ahead does not begin with a digit. -/
def NoDigit (rest : Bytes) : Prop := ∃ c text, rest = c :: text ∧ isdigit c = false

theorem read_char_cons (c : UInt8) (rest : Bytes) : read_char c (ofText (c :: rest)) = ofText rest :=
  if_pos rfl

theorem read_char_ne {a0 : UInt8} (h : c ≠ a0) :
    (read_char a0 (ofText (c :: rest))).failbit = true := by
  unfold read_char
  rw [peek_cons]
  exact congrArg failbit (if_neg h)

/-- Digits up to the bound, or up to another character. -/
theorem digitsLoop_reads : ∀ (digits : Bytes) (x count : Nat), (∀ c ∈ digits, isdigit c = true) →
    count + digits.length ≤ M → count + digits.length = M ∧ digits ≠ [] ∨ NoDigit rest →
    digitsLoop M (digits ++ rest) x count = ((value x digits, count + digits.length), ofText rest)
  | [], x, count, _, _, hend => by
    rcases hend with ⟨-, hne⟩ | ⟨c, text, rfl, hc⟩
    · exact absurd rfl hne
    · exact if_neg (by rw [hc]; exact Bool.false_ne_true)
  | c :: digits, x, count, hdigits, hle, hend => by
    have hc : isdigit c = true := hdigits c List.mem_cons_self
    rw [List.length_cons] at hle hend
    rw [List.cons_append, digitsLoop, if_pos hc]
    by_cases hlast : count + 1 = M
    · have hnil : digits = [] := List.eq_nil_of_length_eq_zero (by omega)
      rw [if_pos hlast, hnil]
      rfl
    · rw [if_neg hlast, digitsLoop_reads digits _ _ (fun d hd => hdigits d (List.mem_cons_of_mem _ hd))
        (by omega) ?_]
      · rw [List.length_cons, Nat.add_right_comm, Nat.add_assoc]
        rfl
      · refine hend.imp (fun h => ⟨by omega, ?_⟩) id
        rintro rfl
        exact hlast h.1

theorem read_unsigned_reads {m : Nat} (hdigits : ∀ c ∈ digits, isdigit c = true)
    (hm : m ≤ digits.length) (hM : digits.length ≤ M)
    (hend : digits.length = M ∧ digits ≠ [] ∨ NoDigit rest) :
    read_unsigned m M (ofText (digits ++ rest)) = (value 0 digits, ofText rest) := by
  unfold read_unsigned
  rw [if_pos ofText_good, ofText_rest, digitsLoop_reads digits 0 0 hdigits (by omega) (by rwa [Nat.zero_add])]
  simp only [Nat.zero_add]
  rw [if_neg (by omega)]

/-- A number that begins with a digit. -/
theorem read_signed_reads {m : Nat} (hdigits : ∀ c ∈ digits, isdigit c = true)
    (hm : max m 1 ≤ digits.length) (hM : digits.length ≤ M)
    (hend : digits.length = M ∧ digits ≠ [] ∨ NoDigit rest) :
    read_signed m M (ofText (digits ++ rest)) = (((value 0 digits : Nat) : Int), ofText rest) := by
  have hread := read_unsigned_reads (m := max m 1) hdigits hm hM hend
  obtain ⟨c, tail, rfl⟩ : ∃ c tail, digits = c :: tail := by
    cases digits with
    | nil =>
      rw [List.length_nil] at hm
      omega
    | cons c tail => exact ⟨c, tail, rfl⟩
  have hc : isdigit c = true := hdigits c List.mem_cons_self
  have hsign : ¬(c = 45 ∨ c = 43) := by
    rintro (rfl | rfl) <;> exact absurd hc (by decide)
  unfold read_signed
  rw [List.cons_append] at hread ⊢
  rw [peek_cons]
  simp only [hc, true_or, if_true, hsign, if_false, hread, ofText_failbit]
  rw [if_neg (fun h => hsign (.inl h))]
  rfl

/-- The digits before the point. -/
theorem decimalLoop_int : ∀ (digits : Bytes) (x : Decimal) (count : Nat),
    (∀ c ∈ digits, isdigit c = true) → count + digits.length < M →
    decimalLoop M (digits ++ rest) x false count =
      decimalLoop M rest { x with i := value x.i digits } false (count + digits.length)
  | [], x, count, _, _ => rfl
  | c :: digits, x, count, hdigits, hlt => by
    have hc : isdigit c = true := hdigits c List.mem_cons_self
    have hpoint : ¬(c = 46 ∧ false = false) := by
      rintro ⟨rfl, -⟩
      exact absurd hc (by decide)
    rw [List.length_cons] at hlt ⊢
    rw [List.cons_append, decimalLoop, if_neg hpoint, if_pos hc]
    simp only [Bool.false_eq_true, if_false]
    rw [if_neg (by omega), decimalLoop_int digits _ _
      (fun d hd => hdigits d (List.mem_cons_of_mem _ hd)) (by omega), Nat.add_right_comm,
      Nat.add_assoc]
    rfl

/-- The digits behind the point, up to the bound. -/
theorem decimalLoop_frac : ∀ (digits : Bytes) (x : Decimal) (count : Nat), digits ≠ [] →
    (∀ c ∈ digits, isdigit c = true) → count + digits.length = M →
    decimalLoop M (digits ++ rest) x true count =
      (({ x with f := value x.f digits, fcount := x.fcount + digits.length }, M), ofText rest)
  | [], _, _, hne, _, _ => absurd rfl hne
  | c :: digits, x, count, _, hdigits, hM => by
    have hc : isdigit c = true := hdigits c List.mem_cons_self
    rw [List.length_cons] at hM
    rw [List.cons_append, decimalLoop, if_neg (fun h => Bool.noConfusion h.2), if_pos hc]
    simp only [if_true]
    by_cases hlast : count + 1 = M
    · have hnil : digits = [] := List.eq_nil_of_length_eq_zero (by omega)
      rw [if_pos hlast, hnil, hlast]
      rfl
    · have hne : digits ≠ [] := by
        rintro rfl
        exact hlast hM
      rw [if_neg hlast, decimalLoop_frac digits _ _ hne
        (fun d hd => hdigits d (List.mem_cons_of_mem _ hd)) (by omega), List.length_cons]
      simp only [value, List.foldl_cons, Nat.add_assoc, Nat.add_comm 1]

/-- Seconds with their fraction. -/
theorem read_long_double_reads {whole fraction : Bytes} (hwhole : ∀ c ∈ whole, isdigit c = true)
    (hfraction : ∀ c ∈ fraction, isdigit c = true) (hne : fraction ≠ [])
    (hM : whole.length + 1 + fraction.length = M) :
    read_long_double 1 M (ofText (whole ++ 46 :: (fraction ++ rest))) =
      (⟨value 0 whole, value 0 fraction, fraction.length⟩, ofText rest) := by
  have hpos := List.length_pos_iff.mpr hne
  unfold read_long_double
  rw [if_pos ofText_good, ofText_rest, decimalLoop_int whole _ _ hwhole (by omega), decimalLoop,
    if_pos ⟨rfl, rfl⟩, if_neg (by omega),
    decimalLoop_frac fraction _ _ hne hfraction (by omega)]
  simp only [Nat.zero_add]
  rw [if_neg (by omega)]

end Digits

/-! ## Keywords -/

/-- The state of a keyword in `scan_keyword`. -/
inductive Status where
  | doesntMatch
  | mightMatch
  | doesMatch
  deriving DecidableEq, Repr

/-- One character for one keyword. -/
def Status.next (indx : Nat) (c : UInt8) (ky : Bytes) : Status → Status
  | .mightMatch =>
    if c = toupper (ky.getD indx 0) then if ky.length = indx + 1 then .doesMatch else .mightMatch
    else .doesntMatch
  | .doesMatch => .doesMatch
  | .doesntMatch => .doesntMatch

/-- A keyword that has matched before the character that is now consumed. -/
def Status.demote (indx : Nat) (ky : Bytes) (st : Status) : Status :=
  if st = .doesMatch ∧ ky.length ≠ indx + 1 then .doesntMatch else st

/-- Some keyword that might match goes on with the character. -/
def consumes (indx : Nat) (c : UInt8) (keys : List Bytes) (status : List Status) : Bool :=
  (keys.zip status).any fun p => p.2 = .mightMatch && c = toupper (p.1.getD indx 0)

/-- The keywords that might match or do. -/
def alive (status : List Status) : Nat :=
  status.countP (· = .mightMatch) + status.countP (· = .doesMatch)

/-- The loop of `scan_keyword` on a good stream.  When the character is not consumed no keyword
might match any more, and the loop is left. -/
def scanLoop (keys : List Bytes) : Bytes → Nat → List Status → List Status × Istream
  | [], _, status =>
    if .mightMatch ∈ status then (status, (ofText []).setEof) else (status, ofText [])
  | ic :: rest, indx, status =>
    if .mightMatch ∈ status then
      let status' := List.zipWith (Status.next indx (toupper ic)) keys status
      if consumes indx (toupper ic) keys status then
        scanLoop keys rest (indx + 1)
          (if alive status' > 1 then List.zipWith (Status.demote indx) keys status' else status')
      else (status', ofText (ic :: rest))
    else (status, ofText (ic :: rest))

/-- The first keyword that matches, or the fail bit. -/
def firstMatch (status : List Status) (is : Istream) : Option Nat × Istream :=
  match status.findIdx? (· = .doesMatch) with
  | some i => (some i, is)
  | none => (none, is.setFail)

/-- `scan_keyword`: the place of the keyword in the table. -/
def scan_keyword (keys : List Bytes) (is : Istream) : Option Nat × Istream :=
  let initial := keys.map fun ky => if ky = [] then Status.doesMatch else .mightMatch
  if is.good then
    let scanned := scanLoop keys is.rest 0 initial
    firstMatch scanned.1 scanned.2
  else firstMatch initial (if is.failbit then is else is.setFail.setEof)

/-! ## The longest keyword -/

/-- A text with its small letters raised. -/
def upper (text : Bytes) : Bytes := text.map toupper

/-- A keyword begins with the text, the case of the letters apart. -/
def Begins (keys : List Bytes) (text : Bytes) : Prop := ∃ ky ∈ keys, upper text <+: upper ky

/-- The state of a keyword when the text has been consumed. -/
def Status.of (text ky : Bytes) : Status :=
  if upper ky = upper text then .doesMatch
  else if upper text <+: upper ky then .mightMatch
  else .doesntMatch

variable {keys : List Bytes} {text rest ky : Bytes} {c : UInt8}

@[simp] theorem length_upper (text : Bytes) : (upper text).length = text.length := by
  simp [upper]

theorem upper_drop (n : Nat) (text : Bytes) : (upper text).drop n = upper (text.drop n) :=
  List.map_drop.symm

theorem upper_concat (text : Bytes) (c : UInt8) : upper (text ++ [c]) = upper text ++ [toupper c] := by
  simp [upper]

theorem of_doesMatch : Status.of text ky = .doesMatch ↔ upper ky = upper text := by
  unfold Status.of
  split
  · simp [*]
  · split <;> simp [*]

theorem of_mightMatch :
    Status.of text ky = .mightMatch ↔ upper text <+: upper ky ∧ upper ky ≠ upper text := by
  unfold Status.of
  split
  · simp [*]
  · split <;> simp [*]

theorem of_doesntMatch : Status.of text ky = .doesntMatch ↔ ¬upper text <+: upper ky := by
  unfold Status.of
  split
  · rename_i heq
    simp [heq]
  · split <;> simp [*]

/-- A keyword goes on with a character. -/
theorem begins_concat (h : upper text <+: upper ky) (hne : upper ky ≠ upper text) :
    upper (text ++ [c]) <+: upper ky ↔ toupper c = toupper (ky.getD text.length 0) := by
  have hlen : text.length < ky.length := by
    have hle := h.length_le
    rw [length_upper, length_upper] at hle
    rcases Nat.lt_or_eq_of_le hle with hlt | heq
    · exact hlt
    · exact absurd (h.eq_of_length (by rw [length_upper, length_upper, heq])).symm hne
  have hsplit : upper ky = upper text ++ toupper (ky.getD text.length 0) ::
      upper (ky.drop (text.length + 1)) := by
    have hdrop : upper ky = upper text ++ (upper ky).drop text.length := by
      obtain ⟨t, ht⟩ := h
      rw [← ht, ← length_upper text, List.drop_left]
    have hget : ky.getD text.length 0 = ky[text.length] := by simp [hlen]
    rw [hdrop, upper_drop, List.drop_eq_getElem_cons hlen, hget]
    rfl
  rw [hsplit, upper_concat, List.prefix_append_right_inj]
  simp [List.cons_prefix_cons]

theorem not_begins_concat (h : ¬upper text <+: upper ky) : ¬upper (text ++ [c]) <+: upper ky :=
  fun hc => h ((upper_concat text c ▸ List.prefix_append _ _).trans hc)

theorem not_begins_longer (h : upper ky = upper text) : ¬upper (text ++ [c]) <+: upper ky := by
  intro hpre
  have hle := hpre.length_le
  rw [h, upper_concat, List.length_append, List.length_singleton] at hle
  omega

/-- A keyword that might match goes on with the character, or no longer does. -/
theorem next_mightMatch (h : Status.of text ky = .mightMatch) :
    Status.next text.length (toupper c) ky .mightMatch = .of (text ++ [c]) ky := by
  obtain ⟨hpre, hne⟩ := of_mightMatch.mp h
  simp only [Status.next]
  split
  · rename_i hc
    have hlonger := (begins_concat hpre hne).mpr hc
    split
    · rename_i hlen
      refine (of_doesMatch.mpr (hlonger.eq_of_length ?_).symm).symm
      rw [length_upper, length_upper, List.length_append, hlen, List.length_singleton]
    · rename_i hlen
      refine (of_mightMatch.mpr ⟨hlonger, ?_⟩).symm
      intro heq
      have := congrArg List.length heq
      rw [length_upper, length_upper, List.length_append, List.length_singleton] at this
      exact hlen this
  · rename_i hc
    exact (of_doesntMatch.mpr ((begins_concat hpre hne).not.mpr hc)).symm

/-- A character that is consumed, for one keyword. -/
theorem demote_next (text ky : Bytes) (c : UInt8) :
    (Status.next text.length (toupper c) ky (.of text ky)).demote text.length ky =
      .of (text ++ [c]) ky := by
  cases h : Status.of text ky with
  | doesntMatch =>
    rw [of_doesntMatch.mpr (not_begins_concat (of_doesntMatch.mp h))]
    rfl
  | mightMatch =>
    rw [next_mightMatch h]
    unfold Status.demote
    refine if_neg ?_
    rintro ⟨hdoes, hlen⟩
    have := congrArg List.length (of_doesMatch.mp hdoes)
    rw [length_upper, length_upper, List.length_append, List.length_singleton] at this
    exact hlen this
  | doesMatch =>
    have hlen := congrArg List.length (of_doesMatch.mp h)
    rw [length_upper, length_upper] at hlen
    rw [of_doesntMatch.mpr (not_begins_longer (of_doesMatch.mp h))]
    exact if_pos ⟨rfl, by omega⟩

/-- Without the demotion, for a keyword that has not matched before. -/
theorem next_of (h : Status.of text ky ≠ .doesMatch) :
    Status.next text.length (toupper c) ky (.of text ky) = .of (text ++ [c]) ky := by
  cases hof : Status.of text ky with
  | doesntMatch =>
    rw [of_doesntMatch.mpr (not_begins_concat (of_doesntMatch.mp hof))]
    rfl
  | mightMatch => exact next_mightMatch hof
  | doesMatch => exact absurd hof h

theorem zipWith_of (f : Bytes → Status → Status) (g : Bytes → Status) (keys : List Bytes) :
    List.zipWith f keys (keys.map g) = keys.map fun ky => f ky (g ky) := by
  rw [List.zipWith_map_right, List.zipWith_self]

/-- The character is consumed if some keyword begins with the longer text. -/
theorem consumes_iff :
    consumes text.length (toupper c) keys (keys.map (Status.of text)) = true ↔
      Begins keys (text ++ [c]) := by
  have hzip : keys.zip (keys.map (Status.of text)) = keys.map fun ky => (ky, Status.of text ky) := by
    rw [List.zip_eq_zipWith, List.zipWith_map_right, List.zipWith_self]
  unfold consumes
  rw [hzip, List.any_map, List.any_eq_true]
  refine exists_congr fun ky => and_congr_right fun _ => ?_
  simp only [Function.comp_apply, Bool.and_eq_true, decide_eq_true_eq]
  constructor
  · rintro ⟨hmight, hc⟩
    obtain ⟨hpre, hne⟩ := of_mightMatch.mp hmight
    exact (begins_concat hpre hne).mpr hc
  · intro hlonger
    have hpre : upper text <+: upper ky :=
      (upper_concat text c ▸ List.prefix_append _ _).trans hlonger
    have hne : upper ky ≠ upper text := fun heq => not_begins_longer heq hlonger
    exact ⟨of_mightMatch.mpr ⟨hpre, hne⟩, (begins_concat hpre hne).mp hlonger⟩

theorem alive_eq : ∀ status : List Status, alive status = status.countP (· ≠ .doesntMatch)
  | [] => rfl
  | st :: status => by
    have ih := alive_eq status
    unfold alive at ih ⊢
    cases st <;> simp only [List.countP_cons] <;> simp <;> simp at ih <;> omega

/-- Where no second keyword is left, none has matched before the character that is consumed. -/
theorem not_doesMatch (hc : Begins keys (text ++ [c]))
    (halive : ¬alive (keys.map fun ky => Status.next text.length (toupper c) ky (.of text ky)) > 1)
    (hky : ky ∈ keys) : Status.of text ky ≠ .doesMatch := by
  intro hdoes
  obtain ⟨kz, hkz, hlonger⟩ := hc
  have hpre : upper text <+: upper kz :=
    (upper_concat text c ▸ List.prefix_append _ _).trans hlonger
  have hmight : Status.of text kz = .mightMatch :=
    of_mightMatch.mpr ⟨hpre, fun heq => not_begins_longer heq hlonger⟩
  have hy : Status.next text.length (toupper c) ky (.of text ky) ≠ .doesntMatch := by
    rw [hdoes]
    exact Status.noConfusion
  have hz : Status.next text.length (toupper c) kz (.of text kz) ≠ .doesntMatch := by
    rw [hmight, next_mightMatch hmight]
    exact fun hdoesnt => of_doesntMatch.mp hdoesnt hlonger
  rw [alive_eq, List.countP_map, List.countP_eq_length_filter] at halive
  have hone : ∀ k ∈ keys, Status.next text.length (toupper c) k (.of text k) ≠ .doesntMatch →
      k ∈ keys.filter ((· ≠ .doesntMatch) ∘ fun ky =>
        Status.next text.length (toupper c) ky (.of text ky)) := fun k hk h => by
    simp [List.mem_filter, hk, h]
  have heq : ky = kz := by
    have hmy := hone ky hky hy
    have hmz := hone kz hkz hz
    obtain ⟨k, hk⟩ := List.length_eq_one_iff.mp
      (Nat.le_antisymm (Nat.le_of_not_lt halive) (List.length_pos_of_mem hmy))
    rw [hk, List.mem_singleton] at hmy hmz
    exact hmy.trans hmz.symm
  rw [heq, hmight] at hdoes
  cases hdoes

/-- One round of the loop that consumes its character. -/
theorem scanLoop_consumed (hc : Begins keys (text ++ [c])) :
    (let status' := List.zipWith (Status.next text.length (toupper c)) keys
        (keys.map (Status.of text))
      if alive status' > 1 then List.zipWith (Status.demote text.length) keys status' else status') =
      keys.map (Status.of (text ++ [c])) := by
  simp only [zipWith_of]
  split
  · exact List.map_congr_left fun ky _ => demote_next text ky c
  · rename_i halive
    exact List.map_congr_left fun ky hky => next_of (not_doesMatch hc halive hky)

/-- The keywords that match in a list of states. -/
def found (status : List Status) : List Bool := status.map fun st => st = .doesMatch

/-- The keywords that the text spells. -/
def spelled (keys : List Bytes) (text : Bytes) : List Bool :=
  keys.map fun ky => upper ky = upper text

theorem found_of (keys : List Bytes) (text : Bytes) :
    found (keys.map (Status.of text)) = spelled keys text := by
  simp [found, spelled, of_doesMatch]

theorem mightMatch_mem :
    Status.mightMatch ∈ keys.map (Status.of text) ↔
      ∃ ky ∈ keys, upper text <+: upper ky ∧ upper ky ≠ upper text := by
  simp [of_mightMatch]

/-- A keyword that goes on with a character might still have matched before it. -/
theorem mightMatch_of_begins (h : Begins keys (text ++ [c])) :
    Status.mightMatch ∈ keys.map (Status.of text) := by
  obtain ⟨ky, hky, hlonger⟩ := h
  exact mightMatch_mem.mpr ⟨ky, hky, (upper_concat text c ▸ List.prefix_append _ _).trans hlonger,
    fun heq => not_begins_longer heq hlonger⟩

/-- A character that no keyword goes on with changes no match. -/
theorem found_next (h : ¬Begins keys (text ++ [c])) :
    found (List.zipWith (Status.next text.length (toupper c)) keys (keys.map (Status.of text))) =
      spelled keys text := by
  rw [zipWith_of, found, List.map_map]
  refine List.map_congr_left fun ky hky => ?_
  simp only [Function.comp_apply, decide_eq_decide]
  rw [← of_doesMatch]
  cases hof : Status.of text ky with
  | doesntMatch => rfl
  | doesMatch => rfl
  | mightMatch =>
    rw [next_mightMatch hof, of_doesMatch]
    refine iff_of_false (fun heq => h ⟨ky, hky, ?_⟩) Status.noConfusion
    exact heq ▸ List.prefix_refl (upper (text ++ [c]))

/-- What the loop ends with: the text that has been consumed is the longest with which a keyword
begins, and the keywords that match are the ones that it spells. -/
structure Scanned (keys : List Bytes) (input consumed : Bytes) (status : List Status)
    (is : Istream) : Prop where
  split : input = consumed ++ is.rest
  begins : consumed = [] ∨ Begins keys consumed
  longest : ∀ c rest, is.rest = c :: rest → ¬Begins keys (consumed ++ [c])
  found : found status = spelled keys consumed
  failbit : is.failbit = false

theorem scanLoop_scanned (keys : List Bytes) :
    ∀ (rest text : Bytes), text = [] ∨ Begins keys text →
      ∃ consumed, Scanned keys (text ++ rest) consumed
        (scanLoop keys rest text.length (keys.map (Status.of text))).1
        (scanLoop keys rest text.length (keys.map (Status.of text))).2
  | [], text, htext => by
    refine ⟨text, ?_⟩
    have hlongest : ∀ c rest, [] = c :: rest → ¬Begins keys (text ++ [c]) := by
      intro c rest h
      cases h
    unfold scanLoop
    split <;> exact
      { split := rfl, begins := htext, longest := hlongest, found := found_of keys text,
        failbit := rfl }
  | c :: rest, text, htext => by
    unfold scanLoop
    by_cases hc : Begins keys (text ++ [c])
    · have ih := scanLoop_scanned keys rest (text ++ [c]) (.inr hc)
      rw [if_pos (mightMatch_of_begins hc), if_pos (consumes_iff.mpr hc), scanLoop_consumed hc]
      rw [List.length_append, List.append_assoc] at ih
      exact ih
    · refine ⟨text, ?_⟩
      have hlongest : ∀ d tail, c :: rest = d :: tail → ¬Begins keys (text ++ [d]) := by
        intro d tail h
        injection h with hd
        rw [← hd]
        exact hc
      split
      · rw [if_neg (consumes_iff.not.mpr hc)]
        exact { split := rfl, begins := htext, longest := hlongest, found := found_next hc,
                failbit := rfl }
      · exact { split := rfl, begins := htext, longest := hlongest, found := found_of keys text,
                failbit := rfl }

/-- What `scan_keyword` makes of a text. -/
theorem scan_keyword_scanned (keys : List Bytes) (input : Bytes) :
    ∃ consumed status is, Scanned keys input consumed status is ∧
      scan_keyword keys (ofText input) = firstMatch status is ∧
      status.findIdx? (fun st => st = .doesMatch) =
        keys.findIdx? fun ky => upper ky = upper consumed := by
  have hinitial : (keys.map fun ky => if ky = [] then Status.doesMatch else .mightMatch) =
      keys.map (Status.of []) := by
    refine List.map_congr_left fun ky _ => ?_
    unfold Status.of upper
    simp
  obtain ⟨consumed, hscan⟩ := scanLoop_scanned keys input [] (.inl rfl)
  have hindex (status : List Status) :
      status.findIdx? (fun st => st = .doesMatch) = (found status).findIdx? id := by
    rw [found, List.findIdx?_map]
    rfl
  have hspelled : (spelled keys consumed).findIdx? id =
      keys.findIdx? fun ky => upper ky = upper consumed := by
    rw [spelled, List.findIdx?_map]
    rfl
  refine ⟨consumed, _, _, hscan, ?_, ?_⟩
  · rw [scan_keyword, if_pos ofText_good, hinitial]
    rfl
  · rw [hindex, hscan.found, hspelled]

theorem firstMatch_none {status : List Status} {is is' : Istream}
    (h : firstMatch status is = (none, is')) : is'.failbit = true := by
  unfold firstMatch at h
  split at h
  · injection h with h
    cases h
  · injection h with _ h
    rw [← h]
    rfl

theorem scan_keyword_none {is is' : Istream} (h : scan_keyword keys is = (none, is')) :
    is'.failbit = true := by
  unfold scan_keyword at h
  dsimp only at h
  split at h
  · exact firstMatch_none h
  · exact firstMatch_none h

/-- A name that has been read stands in the text. -/
theorem scan_keyword_some {input : Bytes} {i : Nat} {is : Istream}
    (h : scan_keyword keys (ofText input) = (some i, is)) :
    ∃ consumed ky, input = consumed ++ is.rest ∧ keys[i]? = some ky ∧
      upper ky = upper consumed := by
  obtain ⟨consumed, status, is', hscan, heq, hindex⟩ := scan_keyword_scanned keys input
  rw [heq, firstMatch, hindex] at h
  split at h
  · rename_i j hj
    obtain ⟨hlt, hky, -⟩ := List.findIdx?_eq_some_iff_getElem.mp hj
    injection h with hi his
    injection hi with hi
    subst hi his
    exact ⟨consumed, keys[j], hscan.split, List.getElem?_eq_getElem hlt, of_decide_eq_true hky⟩
  · cases h

/-- **The name that is read** is the longest text at hand with which a keyword begins; it is the
first keyword that this text spells, and the stream fails where it spells none. -/
theorem scan_keyword_longest (keys : List Bytes) (input : Bytes) :
    ∃ consumed, input = consumed ++ (scan_keyword keys (ofText input)).2.rest ∧
      (consumed = [] ∨ Begins keys consumed) ∧
      (∀ c rest, (scan_keyword keys (ofText input)).2.rest = c :: rest →
        ¬Begins keys (consumed ++ [c])) ∧
      (scan_keyword keys (ofText input)).1 =
        keys.findIdx? (fun ky => upper ky = upper consumed) ∧
      (scan_keyword keys (ofText input)).2.failbit =
        (scan_keyword keys (ofText input)).1.isNone := by
  obtain ⟨consumed, status, is, hscan, heq, hindex⟩ := scan_keyword_scanned keys input
  refine ⟨consumed, ?_⟩
  rw [heq, firstMatch, hindex]
  cases List.findIdx? (fun ky => decide (upper ky = upper consumed)) keys with
  | none => exact ⟨hscan.split, hscan.begins, hscan.longest, rfl, rfl⟩
  | some i => exact ⟨hscan.split, hscan.begins, hscan.longest, rfl, hscan.failbit⟩

end Istream
end Pistache.Date
