import Pistache.Common.Bytes
import Pistache.Lib.Calendar

/-!
# Days and dates

`year_month_day` of the date library under `subprojects/`: `to_days` counts the days from the
first of January 1970, `from_days` is the way back, and `weekday_from_days` gives the day of the
week.  Years are counted from March in both, in eras of four hundred years.

* `to_days_ofDate` — the count is the place of the date in the calendar.
* `from_days_calendar` — the way back gives the dates of the calendar in their order, each one
  once.
-/

set_option autoImplicit false

namespace Pistache.Date

open Calendar

/-- The conversion of an `int` to the `short` that a `year` holds. -/
def short (n : Int) : Int := n.bmod 65536

/-- `year_month_day`. -/
@[ext]
structure YearMonthDay where
  y_ : Int
  m_ : Nat
  d_ : Nat
  deriving DecidableEq, Repr

/-- `year::is_leap`; the remainders are the truncated ones of the language. -/
def is_leap (y : Int) : Bool := y.tmod 4 = 0 ∧ (y.tmod 100 ≠ 0 ∨ y.tmod 400 = 0)

/-- The table in `year_month_day_last::day`. -/
def lastDays : List Nat := [31, 28, 31, 30, 31, 30, 31, 31, 30, 31, 30, 31]

/-- `year_month_day_last::day`. -/
def lastDay (y : Int) (m : Nat) : Nat :=
  if (m ≠ 2 ∨ is_leap y = false) ∧ 1 ≤ m ∧ m ≤ 12 then lastDays.getD (m - 1) 0 else 29

/-- `weekday::weekday_from_days`; the argument is an `int` that is made `unsigned`. -/
def weekday_from_days (z : Int) : Nat :=
  let u := (z % 2 ^ 32).toNat
  if z ≥ -4 then (u + 4) % 2 ^ 32 % 7 else u % 7

namespace YearMonthDay

/-- `year_month_day::ok`. -/
def ok (ymd : YearMonthDay) : Bool :=
  ymd.y_ ≠ -32768 ∧ 1 ≤ ymd.m_ ∧ ymd.m_ ≤ 12 ∧ 1 ≤ ymd.d_ ∧ ymd.d_ ≤ lastDay ymd.y_ ymd.m_

/-- The day of a year that begins in March. -/
def dayOfYear (m d : Nat) : Nat := (153 * (if m > 2 then m - 3 else m + 9) + 2) / 5 + d - 1

/-- The day of an era from its year and the day of the year. -/
def dayOfEra (yoe doy : Nat) : Nat := yoe * 365 + yoe / 4 - yoe / 100 + doy

/-- The year of an era in which a day of it lies. -/
def yearOfEra (doe : Nat) : Nat := (doe - doe / 1460 + doe / 36524 - doe / 146096) / 365

/-- `year_month_day::to_days`. -/
def to_days (ymd : YearMonthDay) : Int :=
  let y := ymd.y_ - (if ymd.m_ ≤ 2 then 1 else 0)
  let era := (if y ≥ 0 then y else y - 399).tdiv 400
  let yoe := (y - era * 400).toNat
  era * 146097 + dayOfEra yoe (dayOfYear ymd.m_ ymd.d_) - 719468

/-- `year_month_day::from_days`. -/
def from_days (dp : Int) : YearMonthDay :=
  let z := dp + 719468
  let era := (if z ≥ 0 then z else z - 146096).tdiv 146097
  let doe := (z - era * 146097).toNat
  let yoe := yearOfEra doe
  let y := yoe + era * 400
  let doy := doe - (365 * yoe + yoe / 4 - yoe / 100)
  let mp := (5 * doy + 2) / 153
  let d := doy - (153 * mp + 2) / 5 + 1
  let m := if mp < 10 then mp + 3 else mp - 9
  { y_ := short (y + if m ≤ 2 then 1 else 0), m_ := m, d_ := d }

/-- The date of the calendar, in the source's fields. -/
def ofDate (d : Calendar.Date) : YearMonthDay := { y_ := d.year, m_ := d.month, d_ := d.day }

@[simp] theorem ofDate_y (d : Calendar.Date) : (ofDate d).y_ = d.year := rfl
@[simp] theorem ofDate_m (d : Calendar.Date) : (ofDate d).m_ = d.month := rfl
@[simp] theorem ofDate_d (d : Calendar.Date) : (ofDate d).d_ = d.day := rfl

end YearMonthDay

/-! ## The language's arithmetic -/

/-- The eras are taken with a division to minus infinity. -/
theorem era_eq (y : Int) {n k : Int} (hn : 0 < n) (hk : k = n - 1) :
    (if y ≥ 0 then y else y - k).tdiv n = y / n := by
  subst hk
  split
  · rename_i hy
    exact Int.tdiv_eq_ediv_of_nonneg hy
  · rename_i hy
    have hr := Int.emod_nonneg y (Int.ne_of_gt hn)
    have hrlt := Int.emod_lt_of_pos y hn
    have hsplit : y - (n - 1) = y % n + 1 + n * (y / n - 1) := by
      have := Int.emod_add_mul_ediv y n
      rw [Int.mul_sub]
      omega
    rw [Int.tdiv_eq_ediv, hsplit, Int.add_mul_ediv_left _ _ (Int.ne_of_gt hn),
      Int.sign_eq_one_of_pos hn]
    rcases Int.lt_or_eq_of_le (show y % n + 1 ≤ n by omega) with hlt | heq
    · have hndvd : ¬n ∣ y % n + 1 := by
        intro hdvd
        have := Int.le_of_dvd (by omega) hdvd
        omega
      have hneg : ¬0 ≤ y % n + 1 + n * (y / n - 1) := by
        rw [← hsplit]
        omega
      rw [if_neg (not_or.mpr ⟨hneg, Int.dvd_add_self_mul.not.mpr hndvd⟩),
        Int.ediv_eq_zero_of_lt (by omega) hlt]
      omega
    · rw [heq, if_pos (.inr (Int.dvd_add_self_mul.mpr (Int.dvd_refl n))),
        Int.ediv_self (Int.ne_of_gt hn)]
      omega

theorem is_leap_iff (y : Int) : is_leap y = true ↔ IsLeap y := by
  unfold is_leap IsLeap
  rw [decide_eq_true_iff]
  have h (n : Int) : y.tmod n = 0 ↔ y % n = 0 := by
    rw [← Int.dvd_iff_tmod_eq_zero, Int.dvd_iff_emod_eq_zero]
  rw [h, ne_eq, h, h]

theorem lastDay_eq (y : Int) {m : Nat} (hpos : 1 ≤ m) (hle : m ≤ 12) :
    lastDay y m = monthLength y m := by
  have hcases : m = 1 ∨ m = 2 ∨ m = 3 ∨ m = 4 ∨ m = 5 ∨ m = 6 ∨ m = 7 ∨ m = 8 ∨ m = 9 ∨ m = 10 ∨
      m = 11 ∨ m = 12 := by omega
  have hleap := is_leap_iff y
  by_cases h : IsLeap y
  all_goals
    simp only [h, iff_true, iff_false, Bool.not_eq_true] at hleap
    rcases hcases with rfl | rfl | rfl | rfl | rfl | rfl | rfl | rfl | rfl | rfl | rfl | rfl <;>
      simp [lastDay, monthLength, lastDays, hleap, h]

/-- The day of the week of an `int` number of days: the reduction to `unsigned` does not show,
the first of January 1970 being a Thursday. -/
theorem weekday_from_days_eq {z : Int} (hlo : -2 ^ 31 ≤ z) (hhi : z < 2 ^ 31) :
    (weekday_from_days z : Int) = (z + 4) % 7 := by
  unfold weekday_from_days
  by_cases hneg : z < 0
  · have hu : z % 2 ^ 32 = z + 2 ^ 32 := by omega
    simp only [hu]
    split <;> omega
  · have hu : z % 2 ^ 32 = z := by omega
    simp only [hu]
    split <;> omega

theorem short_eq {n : Int} (hlo : -32768 ≤ n) (hhi : n < 32768) : short n = n := by
  unfold short
  rw [Int.bmod_def]
  split <;> omega

/-! ## The arithmetic of an era -/

section Era

variable {c q r doy doe : Nat}

/-- A day of an era by its century, its four years and its year. -/
theorem centuries_eq (hc : c < 4) (hq : q < 25) (hr : r < 4) (hdoy : doy < 366)
    (hleap : doy = 365 → r = 3 ∧ (q < 24 ∨ c = 3))
    (hdoe : doe = 36524 * c + (1461 * q + 365 * r + doy)) :
    doe / 36524 = c + doe / 146096 := by
  by_cases hlast : 1461 * q + 365 * r + doy < 36524
  · rw [hdoe, Nat.mul_add_div (by decide), Nat.div_eq_of_lt hlast, Nat.div_eq_of_lt (by omega)]
  · have hdoy' : doy = 365 := by omega
    have hq' : q = 24 := by omega
    have hc' : c = 3 := by have := hleap hdoy'; omega
    have hr' := (hleap hdoy').1
    rw [hdoe, hdoy', hq', hc', hr']

theorem yearOfEra_eq (hc : c < 4) (hq : q < 25) (hr : r < 4) (hdoy : doy < 366)
    (hleap : doy = 365 → r = 3 ∧ (q < 24 ∨ c = 3))
    (hdoe : doe = 36524 * c + (1461 * q + 365 * r + doy)) :
    YearMonthDay.yearOfEra doe = 100 * c + 4 * q + r := by
  have hcent := centuries_eq hc hq hr hdoy hleap hdoe
  -- One day in `1460` too many is taken off when the four years are nearly over.
  obtain ⟨e, he⟩ : ∃ e, (24 * c + q + 365 * r + doy) / 1460 = e := ⟨_, rfl⟩
  have h1460 : doe / 1460 = 25 * c + q + e := by
    rw [← he, ← Nat.mul_add_div (by decide)]
    exact congrArg (· / 1460) (by omega)
  have hle : e ≤ 1 := by
    rw [← he]
    exact Nat.lt_succ_iff.mp (Nat.div_lt_of_lt_mul (by omega))
  have hlate : 1460 * e ≤ 24 * c + q + 365 * r + doy := by
    rw [← he]
    exact Nat.mul_div_le _ _
  have hlast : doy = 365 → 1 ≤ e := by
    intro hdoy'
    have hr' := (hleap hdoy').1
    rw [← he]
    exact (Nat.le_div_iff_mul_le (by decide)).mpr (by omega)
  have hlt : doy - e < 365 := by
    clear hlate h1460 hcent hleap hdoe
    omega
  have hsum : doe - (25 * c + q + e) + (c + doe / 146096) - doe / 146096 =
      365 * (100 * c + 4 * q + r) + (doy - e) := by
    rw [← Nat.add_assoc, Nat.add_sub_cancel]
    clear he hleap h1460 hcent hlt hlast
    omega
  rw [YearMonthDay.yearOfEra, h1460, hcent, hsum, Nat.mul_add_div (by decide),
    Nat.div_eq_of_lt hlt, Nat.add_zero]

/-- Every day of an era is one of a century, of four years and of a year. -/
theorem exists_year (hdoe : doe < 146097) :
    ∃ c q r doy, c < 4 ∧ q < 25 ∧ r < 4 ∧ doy < 366 ∧
      (doy = 365 → r = 3 ∧ (q < 24 ∨ c = 3)) ∧
      doe = 36524 * c + (1461 * q + 365 * r + doy) := by
  obtain ⟨c, rest, hc, hrest, rfl⟩ : ∃ c rest, c < 4 ∧ (rest < 36524 ∨ c = 3 ∧ rest < 36525) ∧
      doe = 36524 * c + rest := by
    by_cases hlast : doe < 109572
    · exact ⟨doe / 36524, doe % 36524, by omega, .inl (by omega), by omega⟩
    · exact ⟨3, doe - 109572, by omega, .inr (by omega), by omega⟩
  obtain ⟨q, four, hq, hfour, rfl⟩ : ∃ q four, q < 25 ∧
      (four < 1460 ∨ four < 1461 ∧ (q < 24 ∨ c = 3)) ∧ rest = 1461 * q + four :=
    ⟨rest / 1461, rest % 1461, by omega, by omega, by omega⟩
  obtain ⟨r, doy, hr, hdoy, rfl⟩ : ∃ r doy, r < 4 ∧ (doy < 365 ∨ doy = 365 ∧ r = 3 ∧ four = 1460) ∧
      four = 365 * r + doy := by
    by_cases hlast : four < 1095
    · exact ⟨four / 365, four % 365, by omega, .inl (by omega), by omega⟩
    · exact ⟨3, four - 1095, by omega, by omega, by omega⟩
  exact ⟨c, q, r, doy, hc, hq, hr, by omega, by omega, by omega⟩

end Era

namespace YearMonthDay

variable {z : Int} {d : Calendar.Date}

/-! ## From a date to its day -/

theorem ok_ofDate (hmin : d.year ≠ -32768) : (ofDate d).ok = true := by
  unfold ok ofDate
  rw [decide_eq_true_iff, lastDay_eq d.year d.month_pos d.month_le]
  exact ⟨hmin, d.month_pos, d.month_le, d.day_pos, d.day_le⟩

/-- What passes `ok` is a date of the calendar. -/
theorem ok_date {ymd : YearMonthDay} (h : ymd.ok = true) : ∃ d, ymd = ofDate d := by
  unfold ok at h
  rw [decide_eq_true_iff] at h
  obtain ⟨-, hmpos, hmle, hdpos, hdle⟩ := h
  rw [lastDay_eq ymd.y_ hmpos hmle] at hdle
  exact ⟨⟨ymd.y_, ymd.m_, ymd.d_, hmpos, hmle, hdpos, hdle⟩, rfl⟩

/-- A year that begins in March, and the place of its days in the year. -/
theorem dayOfYear_eq {m d : Nat} (hmpos : 1 ≤ m) (hmle : m ≤ 12) (hd : 1 ≤ d) :
    dayOfYear m d + 1 = (367 * m - 362) / 12 + d + 306 - (if m ≤ 2 then 0 else 367) := by
  have hcases : m = 1 ∨ m = 2 ∨ m = 3 ∨ m = 4 ∨ m = 5 ∨ m = 6 ∨ m = 7 ∨ m = 8 ∨ m = 9 ∨ m = 10 ∨
      m = 11 ∨ m = 12 := by omega
  unfold dayOfYear
  rcases hcases with rfl | rfl | rfl | rfl | rfl | rfl | rfl | rfl | rfl | rfl | rfl | rfl
  all_goals
    simp
    omega

/-- The count, with the eras taken by division to minus infinity. -/
theorem to_days_eq {ymd : YearMonthDay} {y : Int} (hy : y = ymd.y_ - (if ymd.m_ ≤ 2 then 1 else 0)) :
    ymd.to_days = y / 400 * 146097 + dayOfEra (y - y / 400 * 400).toNat (dayOfYear ymd.m_ ymd.d_) -
      719468 := by
  unfold to_days
  simp only [← hy]
  rw [era_eq _ (by decide) (by decide)]

/-- **The days since 1970** are counted by the place in the calendar. -/
theorem to_days_ofDate (d : Calendar.Date) : (ofDate d).to_days = d.ordinal - 719163 := by
  have hmpos := d.month_pos
  have hmle := d.month_le
  have hdoy := dayOfYear_eq d.month_pos d.month_le d.day_pos
  rw [to_days_eq rfl, d.ordinal_eq, ofDate_y, ofDate_m, ofDate_d]
  unfold dayOfEra
  by_cases hmonth : d.month ≤ 2
  all_goals
    simp only [hmonth, if_true, if_false] at hdoy ⊢
    omega

/-! ## From a day to its date -/

/-- The month and the day that a day of a year has. -/
theorem month_day {doy : Nat} (hdoy : doy < 366) :
    let mp := (5 * doy + 2) / 153
    let d := doy - (153 * mp + 2) / 5 + 1
    let m := if mp < 10 then mp + 3 else mp - 9
    1 ≤ m ∧ m ≤ 12 ∧ dayOfYear m d = doy ∧ (m ≤ 2 ↔ 306 ≤ doy) ∧
      (d ≤ monthLength 1 m ∨ m = 2 ∧ d = 29 ∧ doy = 365) := by
  revert doy
  decide +kernel

/-- The months of a year without a leap day are not longer. -/
theorem monthLength_common (y : Int) (m : Nat) : monthLength 1 m ≤ monthLength y m := by
  have hone : ¬IsLeap 1 := by decide
  unfold monthLength
  simp only [hone, if_false]
  split
  · split <;> omega
  · exact Nat.le_refl _

/-- The days that the years of a `short` have. -/
def Counted (z : Int) : Prop := -12687428 ≤ z ∧ z ≤ 11248737

instance (z : Int) : Decidable (Counted z) := inferInstanceAs (Decidable (_ ∧ _))

/-- `from_days` with the day split into its era, its year and the day of the year. -/
theorem from_days_eq {doe yoe doy : Nat} {era : Int} (hz : z + 719468 = 146097 * era + doe)
    (hdoe : doe < 146097) (hyoe : yearOfEra doe = yoe) (hdoy : dayOfEra yoe doy = doe) :
    from_days z =
      let mp := (5 * doy + 2) / 153
      let m := if mp < 10 then mp + 3 else mp - 9
      { y_ := short (yoe + era * 400 + if m ≤ 2 then 1 else 0), m_ := m,
        d_ := doy - (153 * mp + 2) / 5 + 1 } := by
  have hera : (z + 719468) / 146097 = era := by omega
  have hrem : (z + 719468 - era * 146097).toNat = doe := by omega
  have hdoy : doe - (365 * yoe + yoe / 4 - yoe / 100) = doy := by
    rw [← hdoy, dayOfEra]
    omega
  unfold from_days
  simp only []
  rw [era_eq _ (by decide) (by decide), hera, hrem, hyoe, hdoy]

/-- The years of the days that are counted are those of a `short`. -/
theorem year_range {c q r doy : Nat} {era : Int} (hc : c < 4) (hq : q < 25) (hr : r < 4)
    (hdoy : doy < 366) (hz : Counted z)
    (hera : z + 719468 = 146097 * era + (36524 * c + (1461 * q + 365 * r + doy) : Nat)) :
    -32768 < (100 * c + 4 * q + r : Nat) + era * 400 + (if 306 ≤ doy then 1 else 0) ∧
      (100 * c + 4 * q + r : Nat) + era * 400 + (if 306 ≤ doy then 1 else 0) < 32768 := by
  obtain ⟨hlo, hhi⟩ := hz
  have hfirst : -82 ≤ era := by omega
  have hlast : era ≤ 81 := by omega
  constructor
  · rcases Int.lt_or_eq_of_le hfirst with hlt | rfl
    · split <;> omega
    · have hfour : 8 ≤ q ∨ 1 ≤ c := by omega
      split <;> omega
  · rcases Int.lt_or_eq_of_le hlast with hlt | rfl
    · split <;> omega
    · split <;> omega

/-- The leap day ends a year after which the calendar has a leap year. -/
theorem isLeap_last {c q : Nat} {era : Int} (hc : c < 4) (hq : q < 25) (h : q < 24 ∨ c = 3) :
    IsLeap ((100 * c + 4 * q + 3 : Nat) + era * 400 + 1) := by
  unfold IsLeap
  refine ⟨by omega, ?_⟩
  rcases h with h | rfl
  · exact .inl (by omega)
  · by_cases hlast : q = 24
    · exact .inr (by omega)
    · exact .inl (by omega)

/-- The date that `from_days` gives, with the place of its day. -/
theorem from_days_date (hz : Counted z) :
    ∃ d : Calendar.Date, from_days z = ofDate d ∧ d.ordinal = z + 719163 ∧ d.year ≠ -32768 := by
  obtain ⟨era, doe, hera, hdoe⟩ :
      ∃ (era : Int) (doe : Nat), z + 719468 = 146097 * era + doe ∧ doe < 146097 :=
    ⟨(z + 719468) / 146097, ((z + 719468) % 146097).toNat, by omega, by omega⟩
  obtain ⟨c, q, r, doy, hc, hq, hr, hdoy, hleap, hsplit⟩ := exists_year hdoe
  have hyear := yearOfEra_eq hc hq hr hdoy hleap hsplit
  obtain ⟨yoe, hyoe⟩ : ∃ yoe, yoe = 100 * c + 4 * q + r := ⟨_, rfl⟩
  have hfour : yoe / 4 = 25 * c + q := by omega
  have hcent : yoe / 100 = c := by omega
  have hyday : dayOfEra yoe doy = doe := by
    rw [dayOfEra, hfour, hcent]
    omega
  have hdays := from_days_eq hera hdoe (hyear.trans hyoe.symm) hyday
  obtain ⟨hmpos, hmle, hback, hjan, hlen⟩ := month_day hdoy
  obtain ⟨m, hm⟩ : ∃ m, m = if (5 * doy + 2) / 153 < 10 then (5 * doy + 2) / 153 + 3
    else (5 * doy + 2) / 153 - 9 := ⟨_, rfl⟩
  obtain ⟨day, hday⟩ : ∃ day, day = doy - (153 * ((5 * doy + 2) / 153) + 2) / 5 + 1 := ⟨_, rfl⟩
  simp only [← hm, ← hday] at hmpos hmle hback hjan hlen hdays
  obtain ⟨year, hy⟩ : ∃ year : Int, year = yoe + era * 400 + if m ≤ 2 then 1 else 0 := ⟨_, rfl⟩
  rw [← hy] at hdays
  have hmarch : year - (if m ≤ 2 then 1 else 0) = yoe + era * 400 := by omega
  have hday_le : day ≤ monthLength year m := by
    rcases hlen with hle | ⟨rfl, rfl, rfl⟩
    · exact Nat.le_trans hle (monthLength_common year m)
    · have hyleap : IsLeap year := by
        obtain ⟨rfl, hlast⟩ := hleap rfl
        rw [hy, hyoe, if_pos (Nat.le_refl 2)]
        exact isLeap_last hc hq hlast
      simp [monthLength, hyleap]
  have hrange : -32768 < year ∧ year < 32768 := by
    have := year_range hc hq hr hdoy hz (hsplit ▸ hera)
    simp only [← hjan] at this
    rw [hy, hyoe]
    exact this
  refine ⟨⟨year, m, day, hmpos, hmle, by omega, hday_le⟩, ?_, ?_, by simp; omega⟩
  · rw [hdays, short_eq (by omega) (by omega)]
    rfl
  · have hto := to_days_ofDate ⟨year, m, day, hmpos, hmle, by omega, hday_le⟩
    rw [to_days_eq (y := yoe + era * 400) hmarch.symm] at hto
    have hera' : ((yoe : Int) + era * 400) / 400 = era := by omega
    have hrem : ((yoe : Int) + era * 400 - era * 400).toNat = yoe := by omega
    rw [hera', hrem, ofDate_m, ofDate_d] at hto
    rw [hback, hyday] at hto
    omega

theorem ofDate_injective {d e : Calendar.Date} (h : ofDate d = ofDate e) : d = e := by
  unfold ofDate at h
  injection h with hy hm hd
  exact Calendar.Date.ext hy hm hd

theorem from_days_iff (hz : Counted z) : from_days z = ofDate d ↔ d.ordinal = z + 719163 := by
  obtain ⟨e, hdays, hord, -⟩ := from_days_date hz
  rw [hdays]
  constructor
  · intro h
    rw [← ofDate_injective h]
    exact hord
  · intro h
    rw [Calendar.Date.ordinal_injective (h.trans hord.symm)]

theorem weekday_eq (hz : Counted z) (hord : d.ordinal = z + 719163) :
    (weekday_from_days z : Int) = d.weekday := by
  obtain ⟨hlo, hhi⟩ := hz
  rw [weekday_from_days_eq (by omega) (by omega), Calendar.Date.weekday, hord]
  omega

/-- The dates of the years of a `short`. -/
theorem counted_ofDate (hlo : -32767 ≤ d.year) (hhi : d.year ≤ 32767) :
    Counted (ofDate d).to_days := by
  have hyear := d.ordinal_year
  have hfirst : yearStart (-32767) ≤ yearStart d.year := by
    unfold yearStart
    omega
  have hlast : yearStart (d.year + 1) ≤ yearStart 32768 := by
    unfold yearStart
    omega
  have hfirst' : yearStart (-32767) = -11968266 := by decide
  have hlast' : yearStart 32768 = 11967900 := by decide
  rw [to_days_ofDate]
  unfold Counted
  omega

/-- **The days are the dates of the calendar**: the date of a day is the only one that counts to
it, it has the day of the week of the calendar, and the date of the next day is the day after. -/
theorem from_days_calendar (hz : Counted z) :
    ∃ d : Calendar.Date, from_days z = ofDate d ∧ (from_days z).ok = true ∧
      (from_days z).to_days = z ∧ (weekday_from_days z : Int) = d.weekday ∧
      (∀ e : Calendar.Date, (ofDate e).to_days = z → e = d) ∧
      (Counted (z + 1) → from_days (z + 1) = ofDate d.next) := by
  obtain ⟨d, hdays, hord, hmin⟩ := from_days_date hz
  refine ⟨d, hdays, ?_, ?_, weekday_eq hz hord, ?_, ?_⟩
  · rw [hdays]
    exact ok_ofDate hmin
  · rw [hdays, to_days_ofDate, hord]
    omega
  · intro e he
    rw [to_days_ofDate] at he
    exact Calendar.Date.ordinal_injective (by omega)
  · intro hnext
    rw [from_days_iff hnext, Calendar.Date.ordinal_next, hord]
    omega

/-- The days around the first of March 2000. -/
theorem from_days_leap : ∃ d : Calendar.Date, from_days 11016 = ofDate d ∧
    (from_days 11016).ok = true ∧ (from_days 11016).to_days = 11016 ∧
    (weekday_from_days 11016 : Int) = d.weekday ∧
    (∀ e : Calendar.Date, (ofDate e).to_days = 11016 → e = d) ∧
    (Counted (11016 + 1) → from_days (11016 + 1) = ofDate d.next) :=
  from_days_calendar (by decide)

example : from_days 0 = ⟨1970, 1, 1⟩ ∧ from_days 11016 = ⟨2000, 2, 29⟩ := by decide

end YearMonthDay

end Pistache.Date
