import Pistache.Date.FromStream
import Pistache.Http.Cookie

/-!
# Dates as text

`FullDate::write` and `FullDate::fromString`, the latter with the formats it tries one after the
other, and the text that each format gives for a point of time.
-/

set_option autoImplicit false

namespace Pistache.Http

open Date

namespace FullDate

/-- `"%a, %d %b %Y %T %Z"`. -/
def RFC_1123 : List Directive :=
  [.a, .text 44, .text 32, .d, .text 32, .b, .text 32, .Y, .text 32, .T, .text 32, .Z]

/-- `"%a, %d-%b-%Y %T %Z"`. -/
def RFC_1123_variant : List Directive :=
  [.a, .text 44, .text 32, .d, .text 45, .b, .text 45, .Y, .text 32, .T, .text 32, .Z]

/-- `"%A, %d-%b-%y %T %Z"`, which is read. -/
def RFC_850 : List Directive :=
  [.A, .text 44, .text 32, .d, .text 45, .b, .text 45, .y, .text 32, .T, .text 32, .Z]

/-- `"%a, %d-%b-%y %T %Z"`, which is written. -/
def RFC_850_written : List Directive :=
  [.a, .text 44, .text 32, .d, .text 45, .b, .text 45, .y, .text 32, .T, .text 32, .Z]

/-- `"%a %b %d %T %Y"`. -/
def asctime : List Directive :=
  [.a, .text 32, .b, .text 32, .d, .text 32, .T, .text 32, .Y]

example : directives (lit "%a, %d %b %Y %T %Z") = some RFC_1123 ∧
    directives (lit "%a, %d-%b-%Y %T %Z") = some RFC_1123_variant ∧
    directives (lit "%A, %d-%b-%y %T %Z") = some RFC_850 ∧
    directives (lit "%a, %d-%b-%y %T %Z") = some RFC_850_written ∧
    directives (lit "%a %b %d %T %Y") = some asctime := by decide

/-! ## Reading -/

def parse_RFC_1123 (ld : LongDouble) (s : Bytes) : Option Int :=
  match from_stream ld RFC_1123 s with
  | some tp => some tp
  | none => from_stream ld RFC_1123_variant s

def parse_RFC_850 (ld : LongDouble) (s : Bytes) : Option Int := from_stream ld RFC_850 s

def parse_asctime (ld : LongDouble) (s : Bytes) : Option Int := from_stream ld asctime s

/-- `parse_epoch`, which catches only one of the exceptions of `std::stoull`. -/
def parse_epoch (s : Bytes) : Except Exn (Option Int) :=
  if s.any (fun c => !isdigit c) then .ok none
  else
    match stoull s with
    | .ok v => .ok (some (nanoseconds (v.toNat * second)))
    | .error .outOfRange => .ok none
    | .error .invalidArgument => .error (.std "stoull")

/-- `FullDate::fromString`. -/
def fromString (ld : LongDouble) (str : Bytes) : Except Exn FullDate :=
  match parse_RFC_1123 ld str with
  | some tp => .ok ⟨tp⟩
  | none =>
    match parse_RFC_850 ld str with
    | some tp => .ok ⟨tp⟩
    | none =>
      match parse_asctime ld str with
      | some tp => .ok ⟨tp⟩
      | none =>
        match parse_epoch str with
        | .ok (some tp) => .ok ⟨tp⟩
        | .ok none => .error (.std "Invalid Date format")
        | .error e => .error e

/-! ## Writing -/

/-- `FullDate::Type`. -/
inductive Kind where
  | RFC1123
  | RFC850
  | AscTime
  | RFC1123GMT
  deriving DecidableEq, Repr

/-- `std::put_time` with `"%a, %d %b %Y %T GMT"` and the time that `gmtime_r` has broken down. -/
def put_time (gmtm : Fields) : Bytes :=
  weekday_names.getD (weekday_from_days gmtm.ymd.to_days + 7) [] ++ 44 :: 32 ::
    (fill 2 (numeral 10 gmtm.ymd.d_) ++ 32 ::
      (month_names.getD (gmtm.ymd.m_ - 1 + 12) [] ++ 32 ::
        (numeral 10 gmtm.ymd.y_.toNat ++ 32 ::
          (fill 2 (numeral 10 gmtm.tod.h_.toNat) ++ 58 ::
            (fill 2 (numeral 10 gmtm.tod.m_.toNat) ++ 58 ::
              (fill 2 (numeral 10 gmtm.tod.s_.toNat) ++ 32 :: lit "GMT"))))))

/-- `std::chrono::system_clock::to_time_t`. -/
def to_time_t (tp : Int) : Int := tp.tdiv second

/-- `FullDate::write`; the text that goes to the stream. -/
def write (date : FullDate) : Kind → Bytes
  | .RFC1123 => (to_stream RFC_1123 date.date).1
  | .RFC1123GMT => put_time (fieldsOf (to_time_t date.date * second))
  | .RFC850 => (to_stream RFC_850_written date.date).1
  | .AscTime => (to_stream asctime date.date).1

/-- A point of the system clock, which counts nanoseconds in 64 bits. -/
def Representable (n : Int) : Prop := -2 ^ 63 ≤ n ∧ n < 2 ^ 63

instance (n : Int) : Decidable (Representable n) := inferInstanceAs (Decidable (_ ∧ _))

/-! ## The texts of a point of time -/

/-- The years of the points that can be represented. -/
theorem moment_range {t : Moment} (h : Representable t.tp) :
    YearMonthDay.Counted t.days ∧ 1677 ≤ t.date.year ∧ t.date.year ≤ 2262 := by
  obtain ⟨hlo, hhi⟩ := h
  have hdays : -106752 ≤ t.tp / day ∧ t.tp / day ≤ 106751 := by
    unfold day
    omega
  rw [t.tp_div] at hdays
  have hyear := t.date.ordinal_year
  refine ⟨by unfold YearMonthDay.Counted; omega, ?_⟩
  unfold Moment.days at hdays
  unfold Calendar.yearStart at hyear
  omega

theorem exists_moment {n : Int} (h : Representable n) : ∃ t : Moment, t.tp = n := by
  refine Moment.exists_tp ?_
  obtain ⟨hlo, hhi⟩ := h
  unfold YearMonthDay.Counted day
  omega

section Texts

variable (t : Moment)

/-- The day of the week. -/
def weekdayOf : Nat := weekday_from_days t.days

def weekdayText : Bytes := weekday_names.getD (weekdayOf t + 7) []
def monthText : Bytes := month_names.getD (t.date.month - 1 + 12) []

/-- The text in the format of RFC 1123. -/
def textRFC_1123 (clock zone : Bytes) : Bytes :=
  weekdayText t ++ 44 :: 32 :: (decimal 2 t.date.day ++ 32 :: (monthText t ++ 32 ::
    (decimal 4 t.date.year.toNat ++ 32 :: (clock ++ 32 :: zone))))

/-- The text in the format of RFC 850. -/
def textRFC_850 (clock zone : Bytes) : Bytes :=
  weekdayText t ++ 44 :: 32 :: (decimal 2 t.date.day ++ 45 :: (monthText t ++ 45 ::
    (decimal 2 (t.date.year.toNat % 100) ++ 32 :: (clock ++ 32 :: zone))))

/-- The text in the format of `asctime`. -/
def textAsctime (clock : Bytes) : Bytes :=
  weekdayText t ++ 32 :: (monthText t ++ 32 :: (decimal 2 t.date.day ++ 32 ::
    (clock ++ 32 :: decimal 4 t.date.year.toNat)))

end Texts

section Written

variable {t : Moment} {zone text : Bytes}

theorem weekdayOf_lt (t : Moment) : weekdayOf t < 7 := by
  unfold weekdayOf weekday_from_days
  dsimp only
  split <;> exact Nat.mod_lt _ (by decide)

theorem day_le (t : Moment) : t.date.day ≤ 31 := by
  have hle := t.date.day_le
  unfold Calendar.monthLength at hle
  split at hle
  · split at hle <;> omega
  · split at hle <;> omega

theorem fields_ok (hlo : 1677 ≤ t.date.year) : t.fields.ymd.ok = true :=
  YearMonthDay.ok_ofDate (by omega)

theorem extract_weekday_fields (hlo : 1677 ≤ t.date.year) :
    extract_weekday t.fields = some (weekdayOf t) := by
  have hok := fields_ok hlo
  have hdays : t.fields.ymd.to_days = t.days := YearMonthDay.to_days_ofDate t.date
  have hwd : ¬t.fields.wd ≤ 6 := by
    show ¬8 ≤ 6
    decide
  unfold extract_weekday
  rw [hok, hdays, if_neg (by simp), if_pos rfl]
  dsimp only
  rw [if_neg (fun h => hwd h.1)]
  rfl

theorem print_clock (c : Clock) : c.hms.print = clockText c := by
  have h₁ := c.h_lt
  have h₂ := c.m_lt
  have h₃ := c.s_lt
  have hh : (if (c.h : Int) < 10 then [48] else []) ++ numeral 10 c.h = decimal 2 c.h := by
    rw [← pad_numeral (by omega)]
    simp only [show ((c.h : Int) < 10) = (c.h < 10) from propext (by omega)]
  have hm : (if (c.m : Int) < 10 then [48] else []) ++ numeral 10 c.m = decimal 2 c.m := by
    rw [← pad_numeral (by omega)]
    simp only [show ((c.m : Int) < 10) = (c.m < 10) from propext (by omega)]
  unfold HhMmSs.print Clock.hms clockText
  dsimp only
  rw [if_neg Bool.false_ne_true, List.nil_append, Int.toNat_natCast, Int.toNat_natCast,
    Int.toNat_natCast, Int.toNat_natCast, hh, hm, fill_numeral (by decide) (by omega),
    fill_numeral (by decide) c.ns_lt]

theorem write_text (fds : Fields) (zone : Bytes) (c : UInt8) :
    (Directive.text c).write fds zone = some [c] := rfl

theorem write_Z (fds : Fields) (zone : Bytes) : Directive.Z.write fds zone = some zone := rfl

/-- What the directives write for a point whose year has four digits. -/
structure Writes (t : Moment) (zone : Bytes) : Prop where
  a : Directive.a.write t.fields zone = some (weekdayText t)
  b : Directive.b.write t.fields zone = some (monthText t)
  d : Directive.d.write t.fields zone = some (decimal 2 t.date.day)
  Y : Directive.Y.write t.fields zone = some (decimal 4 t.date.year.toNat)
  y : Directive.y.write t.fields zone = some (decimal 2 (t.date.year.toNat % 100))
  T : Directive.T.write t.fields zone = some (clockText t.clock)

theorem writes (hlo : 1677 ≤ t.date.year) (hhi : t.date.year ≤ 2262) (zone : Bytes) :
    Writes t zone where
  a := by
    unfold Directive.write
    rw [extract_weekday_fields hlo]
    rfl
  b := if_pos ⟨t.date.month_pos, t.date.month_le⟩
  d := by
    have hle := day_le t
    show (if 1 ≤ t.date.day ∧ t.date.day ≤ 31 then some (fill 2 (numeral 10 t.date.day)) else none) =
      _
    rw [if_pos ⟨t.date.day_pos, hle⟩, fill_numeral (by decide) (by omega)]
  Y := by
    have hneg : ¬t.date.year < 0 := by omega
    have habs : t.date.year.natAbs = t.date.year.toNat := by omega
    show (if t.date.year ≠ -32768 then some ((if t.date.year < 0 then [45] else []) ++
      fill 4 (numeral 10 t.date.year.natAbs)) else none) = _
    rw [if_pos (by omega), if_neg hneg, habs, fill_numeral (by decide) (by omega)]
    rfl
  y := by
    have habs : t.date.year.natAbs = t.date.year.toNat := by omega
    show (if t.date.year ≠ -32768 then some ((if t.date.year.natAbs % 100 < 10 then [48] else []) ++
      numeral 10 (t.date.year.natAbs % 100)) else none) = _
    rw [if_pos (by omega), habs, pad_numeral (Nat.mod_lt _ (by decide))]
  T := congrArg some (print_clock t.clock)

theorem to_stream_RFC_1123 (h : YearMonthDay.Counted t.days) (hlo : 1677 ≤ t.date.year)
    (hhi : t.date.year ≤ 2262) :
    to_stream RFC_1123 t.tp = (textRFC_1123 t (clockText t.clock) (lit "UTC"), false) := by
  have hw := writes hlo hhi (lit "UTC")
  rw [to_stream, Moment.fieldsOf_tp h]
  simp only [RFC_1123, to_streamLoop, hw.a, hw.b, hw.d, hw.Y, hw.T, write_text, write_Z, textRFC_1123,
    List.append_nil, List.cons_append, List.nil_append]

theorem to_stream_RFC_850 (h : YearMonthDay.Counted t.days) (hlo : 1677 ≤ t.date.year)
    (hhi : t.date.year ≤ 2262) :
    to_stream RFC_850_written t.tp = (textRFC_850 t (clockText t.clock) (lit "UTC"), false) := by
  have hw := writes hlo hhi (lit "UTC")
  rw [to_stream, Moment.fieldsOf_tp h]
  simp only [RFC_850_written, to_streamLoop, hw.a, hw.b, hw.d, hw.y, hw.T, write_text, write_Z,
    textRFC_850, List.append_nil, List.cons_append, List.nil_append]

theorem to_stream_asctime (h : YearMonthDay.Counted t.days) (hlo : 1677 ≤ t.date.year)
    (hhi : t.date.year ≤ 2262) :
    to_stream asctime t.tp = (textAsctime t (clockText t.clock), false) := by
  have hw := writes hlo hhi (lit "UTC")
  rw [to_stream, Moment.fieldsOf_tp h]
  simp only [asctime, to_streamLoop, hw.a, hw.b, hw.d, hw.Y, hw.T, write_text, textAsctime,
    List.append_nil, List.cons_append, List.nil_append]

/-- The seconds without a fraction, as the C library writes them. -/
def secondsText (c : Clock) : Bytes :=
  decimal 2 c.h ++ 58 :: (decimal 2 c.m ++ 58 :: decimal 2 c.s)

theorem put_time_fields (hlo : 1677 ≤ t.date.year) (hhi : t.date.year ≤ 2262) :
    put_time t.fields = textRFC_1123 t (secondsText t.clock) (lit "GMT") := by
  have hday := day_le t
  have h₁ := t.clock.h_lt
  have h₂ := t.clock.m_lt
  have h₃ := t.clock.s_lt
  have hdays : (YearMonthDay.ofDate t.date).to_days = t.days := YearMonthDay.to_days_ofDate t.date
  have hyear : numeral 10 t.date.year.toNat = decimal 4 t.date.year.toNat := by
    have hlead : t.date.year.toNat / 10 / 10 / 10 % 10 = t.date.year.toNat / 10 / 10 / 10 := by omega
    rw [numeral_ge (by omega), numeral_ge (by omega), numeral_ge (by omega), numeral_lt (by omega)]
    simp only [decimal, hlead, List.nil_append]
  unfold put_time Moment.fields Clock.hms textRFC_1123 secondsText
  dsimp only [YearMonthDay.ofDate_y, YearMonthDay.ofDate_m, YearMonthDay.ofDate_d]
  rw [hdays, hyear, Int.toNat_natCast, Int.toNat_natCast, Int.toNat_natCast,
    fill_numeral (by decide) (by omega), fill_numeral (by decide) (by omega),
    fill_numeral (by decide) (by omega), fill_numeral (by decide) (by omega)]
  simp only [List.append_assoc, List.cons_append]
  rfl

end Written

end FullDate

end Pistache.Http
