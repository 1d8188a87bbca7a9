import Pistache.Common.Ostream
import Pistache.Date.Istream
import Pistache.Date.YearMonthDay

/-!
# Writing dates

`to_stream` of the date library with the conversions that `FullDate` uses.  A format is a list of
`Directive`s, `directives` being how the loop over the characters of the format groups them, and
the output is the text with the fail bit of the stream.

* `fill_numeral` — a number of at most `w` digits, filled with zeros, is its `w` last digits.
* `fieldsOf_valid` — the fields of a point of time are a date of the calendar and a time of day.
-/

set_option autoImplicit false

namespace Pistache.Date

/-- `weekday_names`. -/
def weekday_names : List Bytes :=
  [lit "Sunday", lit "Monday", lit "Tuesday", lit "Wednesday", lit "Thursday", lit "Friday",
    lit "Saturday", lit "Sun", lit "Mon", lit "Tue", lit "Wed", lit "Thu", lit "Fri", lit "Sat"]

/-- `month_names`. -/
def month_names : List Bytes :=
  [lit "January", lit "February", lit "March", lit "April", lit "May", lit "June", lit "July",
    lit "August", lit "September", lit "October", lit "November", lit "December",
    lit "Jan", lit "Feb", lit "Mar", lit "Apr", lit "May", lit "Jun", lit "Jul", lit "Aug",
    lit "Sep", lit "Oct", lit "Nov", lit "Dec"]

/-- A conversion, or a character that stands for itself. -/
inductive Directive where
  | a
  | A
  | b
  | d
  | Y
  | y
  | T
  | Z
  | text (c : UInt8)
  deriving DecidableEq, Repr

/-- How the characters of a format are grouped. -/
def directives : Bytes → Option (List Directive)
  | [] => some []
  | 37 :: c :: fmt =>
    let conversion : Option Directive :=
      if c = 97 then some .a else if c = 65 then some .A else if c = 98 then some .b
      else if c = 100 then some .d else if c = 89 then some .Y else if c = 121 then some .y
      else if c = 84 then some .T else if c = 90 then some .Z else none
    match conversion, directives fmt with
    | some dir, some dirs => some (dir :: dirs)
    | _, _ => none
  | c :: fmt => if c = 37 then none else (directives fmt).map (.text c :: ·)

/-- `hh_mm_ss<nanoseconds>`. -/
structure HhMmSs where
  h_ : Int
  m_ : Int
  s_ : Int
  sub_s_ : Int
  neg_ : Bool
  deriving DecidableEq, Repr

/-- `fields<nanoseconds>`. -/
structure Fields where
  ymd : YearMonthDay
  wd : Nat
  tod : HhMmSs
  has_tod : Bool
  deriving DecidableEq, Repr

/-- The nanoseconds of a second, a minute, an hour and a day. -/
def second : Int := 1000000000
def minute : Int := 60000000000
def hour : Int := 3600000000000
def day : Int := 86400000000000

namespace HhMmSs

/-- `hh_mm_ss(Duration)`. -/
def ofDuration (d : Int) : HhMmSs :=
  let abs := if d ≥ 0 then d else -d
  let h := abs.tdiv hour
  let m := abs.tdiv minute - h * 60
  let s := abs - h * hour - m * minute
  { h_ := h, m_ := m, s_ := s.tdiv second, sub_s_ := s - s.tdiv second * second,
    neg_ := d < 0 }

/-- `hh_mm_ss::to_duration`. -/
def to_duration (tod : HhMmSs) : Int :=
  (tod.s_ * second + tod.sub_s_ + tod.m_ * minute + tod.h_ * hour) * (if tod.neg_ then -1 else 1)

/-- `hh_mm_ss::in_conventional_range`. -/
def in_conventional_range (tod : HhMmSs) : Bool :=
  !tod.neg_ && tod.h_ < 24 && tod.m_ < 60 && (tod.sub_s_ < second && tod.s_ < 60)

end HhMmSs

/-! ## Numbers with zeros before them -/

/-- A text filled with zeros to a width, on the left. -/
def fill (w : Nat) (text : Bytes) : Bytes := List.replicate (w - text.length) 48 ++ text

/-- The last `w` digits of a number. -/
def decimal : Nat → Nat → Bytes
  | 0, _ => []
  | w + 1, n => decimal w (n / 10) ++ [digitChar (n % 10)]

namespace HhMmSs

/-- `operator<<` of `hh_mm_ss` and of its seconds; the counts are those of an absolute value. -/
def print (tod : HhMmSs) : Bytes :=
  (if tod.neg_ then [45] else []) ++
    ((if tod.h_ < 10 then [48] else []) ++ numeral 10 tod.h_.toNat ++ 58 ::
      ((if tod.m_ < 10 then [48] else []) ++ numeral 10 tod.m_.toNat ++ 58 ::
        (fill 2 (numeral 10 tod.s_.toNat) ++ 46 :: fill 9 (numeral 10 tod.sub_s_.toNat))))

end HhMmSs

/-! ## The output -/

/-- `extract_weekday`, without a value where it fails. -/
def extract_weekday (fds : Fields) : Option Nat :=
  if fds.ymd.ok = false ∧ ¬fds.wd ≤ 6 then none
  else if fds.ymd.ok then
    let wd := weekday_from_days fds.ymd.to_days
    if fds.wd ≤ 6 ∧ wd ≠ fds.wd then none else some wd
  else some fds.wd

/-- What a directive writes, none where it sets the fail bit. -/
def Directive.write (fds : Fields) (zone : Bytes) : Directive → Option Bytes
  | .a => (extract_weekday fds).map fun wd => weekday_names.getD (wd + 7) []
  | .A => (extract_weekday fds).map fun wd => weekday_names.getD wd []
  | .b =>
    if 1 ≤ fds.ymd.m_ ∧ fds.ymd.m_ ≤ 12 then some (month_names.getD (fds.ymd.m_ - 1 + 12) [])
    else none
  | .d =>
    if 1 ≤ fds.ymd.d_ ∧ fds.ymd.d_ ≤ 31 then some (fill 2 (numeral 10 fds.ymd.d_)) else none
  | .Y =>
    let y := fds.ymd.y_
    if y ≠ -32768 then some ((if y < 0 then [45] else []) ++ fill 4 (numeral 10 y.natAbs)) else none
  | .y =>
    let y := fds.ymd.y_.natAbs % 100
    if fds.ymd.y_ ≠ -32768 then some ((if y < 10 then [48] else []) ++ numeral 10 y) else none
  | .T => if fds.has_tod then some fds.tod.print else none
  | .Z => some zone
  | .text c => some [c]

/-- The loop of `to_stream`; a stream with the fail bit takes nothing more. -/
def to_streamLoop (fds : Fields) (zone : Bytes) : List Directive → Bytes × Bool
  | [] => ([], false)
  | dir :: fmt =>
    match dir.write fds zone with
    | some text => (text ++ (to_streamLoop fds zone fmt).1, (to_streamLoop fds zone fmt).2)
    | none => ([], true)

/-- The fields of a point of the system clock, as `to_stream` takes it apart. -/
def fieldsOf (tp : Int) : Fields :=
  let sd := tp.tdiv day
  if sd * day ≤ tp then
    { ymd := .from_days sd, wd := 8, tod := .ofDuration (tp - sd * day), has_tod := true }
  else
    { ymd := .from_days (sd - 1), wd := 8, tod := .ofDuration (day - (sd * day - tp)),
      has_tod := true }

/-- `to_stream` of a `sys_time`. -/
def to_stream (fmt : List Directive) (tp : Int) : Bytes × Bool :=
  to_streamLoop (fieldsOf tp) (lit "UTC") fmt

/-! ## Digits -/

section Decimal

variable {w n : Nat}

theorem numeral_lt (h : n < 10) : numeral 10 n = [digitChar n] := by
  unfold numeral
  split
  · rename_i hn
    rw [hn]
  · rename_i hn
    rw [Nat.digits_of_lt 10 n hn h]
    rfl

theorem numeral_ge (h : 10 ≤ n) : numeral 10 n = numeral 10 (n / 10) ++ [digitChar (n % 10)] := by
  unfold numeral
  rw [if_neg (by omega), if_neg (by omega), Nat.digits_def' (by decide) (by omega),
    List.reverse_cons, List.map_append]
  rfl

theorem decimal_zero : ∀ w, decimal w 0 = List.replicate w 48
  | 0 => rfl
  | w + 1 => by
    rw [decimal, Nat.zero_div, decimal_zero w, List.replicate_succ']
    rfl

@[simp] theorem length_decimal : ∀ w n, (decimal w n).length = w
  | 0, _ => rfl
  | w + 1, n => by rw [decimal, List.length_append, length_decimal w, List.length_singleton]

theorem decimal_ne_nil {w n : Nat} (hw : 0 < w) : decimal w n ≠ [] := by
  intro h
  have := length_decimal w n
  rw [h, List.length_nil] at this
  omega

/-- **A number of at most `w` digits**, filled with zeros, is its last `w` digits. -/
theorem fill_numeral : ∀ {w n : Nat}, 0 < w → n < 10 ^ w → fill w (numeral 10 n) = decimal w n
  | w + 1, n, _, hn => by
    by_cases hlt : n < 10
    · rw [numeral_lt hlt, decimal, Nat.div_eq_of_lt hlt, Nat.mod_eq_of_lt hlt, decimal_zero]
      rfl
    · have hw : 0 < w := by
        rcases Nat.eq_zero_or_pos w with rfl | hw
        · omega
        · exact hw
      have ih := fill_numeral (n := n / 10) hw
        (Nat.div_lt_of_lt_mul (by rw [Nat.pow_succ, Nat.mul_comm] at hn; exact hn))
      rw [decimal, ← ih, numeral_ge (by omega), fill, fill, List.length_append,
        List.length_singleton, Nat.add_sub_add_right, List.append_assoc]

/-- The zero that is written before a single digit. -/
theorem pad_numeral (h : n < 100) :
    (if n < 10 then [48] else []) ++ numeral 10 n = decimal 2 n := by
  rw [← fill_numeral (by decide) (by omega)]
  unfold fill
  by_cases hlt : n < 10
  · rw [if_pos hlt, numeral_lt hlt]
    rfl
  · rw [if_neg hlt, numeral_ge (by omega), numeral_lt (by omega)]
    rfl

theorem isdigit_digitChar {d : Nat} (h : d < 10) : isdigit (digitChar d) = true := by
  revert d
  decide

theorem digitChar_toNat {d : Nat} (h : d < 10) : (digitChar d).toNat - 48 = d := by
  revert d
  decide

theorem isdigit_decimal : ∀ w n, ∀ c ∈ decimal w n, isdigit c = true
  | 0, _, c, hc => by cases hc
  | w + 1, n, c, hc => by
    rw [decimal, List.mem_append, List.mem_singleton] at hc
    rcases hc with hc | rfl
    · exact isdigit_decimal w _ c hc
    · exact isdigit_digitChar (Nat.mod_lt n (by decide))

open Istream in
/-- The digits are read back. -/
theorem value_decimal : ∀ w n, n < 10 ^ w → value 0 (decimal w n) = n
  | 0, n, hn => by
    rw [Nat.pow_zero] at hn
    rw [Nat.lt_one_iff.mp hn]
    rfl
  | w + 1, n, hn => by
    have ih := value_decimal w (n / 10)
      (Nat.div_lt_of_lt_mul (by rw [Nat.pow_succ, Nat.mul_comm] at hn; exact hn))
    unfold value at ih ⊢
    rw [decimal, List.foldl_append, ih, List.foldl_cons, List.foldl_nil,
      digitChar_toNat (Nat.mod_lt n (by decide))]
    omega

end Decimal

/-! ## Points of time -/

/-- A time of day. -/
structure Clock where
  h : Nat
  m : Nat
  s : Nat
  ns : Nat
  h_lt : h < 24
  m_lt : m < 60
  s_lt : s < 60
  ns_lt : ns < 1000000000

namespace Clock

def toDuration (c : Clock) : Int := c.h * hour + c.m * minute + c.s * second + c.ns

def hms (c : Clock) : HhMmSs := { h_ := c.h, m_ := c.m, s_ := c.s, sub_s_ := c.ns, neg_ := false }

variable {c : Clock} {t : Int}

theorem toDuration_range (c : Clock) : 0 ≤ c.toDuration ∧ c.toDuration < day := by
  have h₁ := c.h_lt
  have h₂ := c.m_lt
  have h₃ := c.s_lt
  have h₄ := c.ns_lt
  unfold toDuration hour minute second day
  omega

theorem exists_toDuration (hlo : 0 ≤ t) (hhi : t < day) : ∃ c : Clock, c.toDuration = t := by
  unfold day at hhi
  refine ⟨⟨(t / hour).toNat, (t / minute % 60).toNat, (t / second % 60).toNat,
    (t % second).toNat, ?_, ?_, ?_, ?_⟩, ?_⟩
  all_goals
    simp only [toDuration, hour, minute, second]
    omega

theorem ofDuration_toDuration (c : Clock) : HhMmSs.ofDuration c.toDuration = c.hms := by
  have hpos := c.toDuration_range.1
  have h₂ := c.m_lt
  have h₃ := c.s_lt
  have h₄ := c.ns_lt
  have hh : c.toDuration / hour = c.h := by
    unfold toDuration hour minute second
    omega
  have hm : c.toDuration / minute = c.h * 60 + c.m := by
    unfold toDuration hour minute second
    omega
  have hs : (c.toDuration - c.h * hour - (c.h * 60 + c.m - c.h * 60) * minute) =
      c.s * second + c.ns := by
    unfold toDuration minute
    omega
  have hsec : (c.s * second + c.ns : Int) / second = c.s := by
    unfold second
    omega
  have hnonneg : (0 : Int) ≤ c.s * second + c.ns := by
    unfold second
    omega
  have habs : (if c.toDuration ≥ 0 then c.toDuration else -c.toDuration) = c.toDuration :=
    if_pos hpos
  have hneg : decide (c.toDuration < 0) = false := decide_eq_false (Int.not_lt.mpr hpos)
  unfold HhMmSs.ofDuration hms
  dsimp only
  rw [habs, Int.tdiv_eq_ediv_of_nonneg hpos, Int.tdiv_eq_ediv_of_nonneg hpos, hh, hm, hs,
    Int.tdiv_eq_ediv_of_nonneg hnonneg, hsec, hneg, Int.add_comm _ (c.m : Int),
    Int.add_comm _ (c.ns : Int), Int.add_sub_cancel, Int.add_sub_cancel]

theorem to_duration_hms (c : Clock) : c.hms.to_duration = c.toDuration := by
  unfold HhMmSs.to_duration hms toDuration
  simp only [Bool.false_eq_true, if_false, Int.mul_one]
  omega

theorem hms_range (c : Clock) : c.hms.in_conventional_range = true := by
  have h₁ := c.h_lt
  have h₂ := c.m_lt
  have h₃ := c.s_lt
  have h₄ : (c.ns : Int) < second := Int.ofNat_lt.mpr c.ns_lt
  unfold HhMmSs.in_conventional_range hms
  simp only [Bool.not_false, Bool.true_and, Bool.and_eq_true, decide_eq_true_eq, h₄, true_and]
  omega

end Clock

/-- Before 1970 the days are truncated upwards, and one is taken off again. -/
theorem fieldsOf_eq (tp : Int) :
    fieldsOf tp = { ymd := .from_days (tp / day), wd := 8, tod := .ofDuration (tp % day),
                    has_tod := true } := by
  have hsplit := Int.emod_add_mul_ediv tp day
  have hnonneg := Int.emod_nonneg tp (show day ≠ 0 by decide)
  have hlt := Int.emod_lt_of_pos tp (show 0 < day by decide)
  rw [Int.mul_comm] at hsplit
  unfold fieldsOf
  by_cases hdown : 0 ≤ tp ∨ day ∣ tp
  · have hsd : tp.tdiv day = tp / day := by rw [Int.tdiv_eq_ediv, if_pos hdown, Int.add_zero]
    have hle : tp / day * day ≤ tp := by omega
    have hrest : tp - tp / day * day = tp % day := by omega
    simp only [hsd, hle, if_true, hrest]
  · have hsd : tp.tdiv day = tp / day + 1 := by rw [Int.tdiv_eq_ediv, if_neg hdown]; rfl
    have hmul : (tp / day + 1) * day = tp / day * day + day := by rw [Int.add_mul, Int.one_mul]
    have hgt : ¬(tp / day + 1) * day ≤ tp := by omega
    have hrest : day - ((tp / day + 1) * day - tp) = tp % day := by omega
    simp only [hsd, hgt, if_false, hrest, Int.add_sub_cancel]

/-- A point of time: a date and a time of day. -/
structure Moment where
  date : Calendar.Date
  clock : Clock

namespace Moment

/-- The days since 1970. -/
def days (t : Moment) : Int := t.date.ordinal - 719163

/-- The point of the system clock, which counts nanoseconds. -/
def tp (t : Moment) : Int := t.days * day + t.clock.toDuration

variable {t : Moment}

theorem tp_div (t : Moment) : t.tp / day = t.days := by
  have hclock := t.clock.toDuration_range
  unfold tp day at *
  omega

/-- What `to_stream` works with. -/
def fields (t : Moment) : Fields :=
  { ymd := .ofDate t.date, wd := 8, tod := t.clock.hms, has_tod := true }

theorem from_days_days (h : YearMonthDay.Counted t.days) :
    YearMonthDay.from_days t.days = .ofDate t.date := by
  rw [YearMonthDay.from_days_iff h, days]
  omega

/-- **The fields of a point of time** are its date and its time of day. -/
theorem fieldsOf_tp (h : YearMonthDay.Counted t.days) : fieldsOf t.tp = t.fields := by
  have hclock := t.clock.toDuration_range
  have hrest : t.tp % day = t.clock.toDuration := by
    unfold tp day at *
    omega
  rw [fieldsOf_eq, tp_div, hrest, from_days_days h, t.clock.ofDuration_toDuration]
  rfl

/-- Every point of the clock is one. -/
theorem exists_tp {n : Int} (h : YearMonthDay.Counted (n / day)) : ∃ t : Moment, t.tp = n := by
  obtain ⟨d, -, hord, -⟩ := YearMonthDay.from_days_date h
  obtain ⟨c, hc⟩ := Clock.exists_toDuration (Int.emod_nonneg n (show day ≠ 0 by decide))
    (Int.emod_lt_of_pos n (show 0 < day by decide))
  refine ⟨⟨d, c⟩, ?_⟩
  have hsplit := Int.emod_add_mul_ediv n day
  unfold tp days
  rw [hord, hc, Int.add_sub_cancel, Int.mul_comm]
  omega

end Moment

end Pistache.Date
