/-!
# The Gregorian calendar

The proleptic calendar: a `Date` carries that it is one, and `Date.ordinal` is its place among
the days, the first of January of the year one having place one.

* `Date.ordinal_next` — the day after a date has the next place.
* `Date.ordinal_injective` — two dates with one place are one date.
* `Date.weekday_centuries` — a date whole centuries later falls on the same day of the week if
  and only if the centuries are whole cycles of four.
-/

set_option autoImplicit false

namespace Calendar

def IsLeap (y : Int) : Prop := y % 4 = 0 ∧ (y % 100 ≠ 0 ∨ y % 400 = 0)

instance (y : Int) : Decidable (IsLeap y) := inferInstanceAs (Decidable (_ ∧ _))

/-- The days of a month. -/
def monthLength (y : Int) (m : Nat) : Nat :=
  if m = 2 then if IsLeap y then 29 else 28
  else if m = 4 ∨ m = 6 ∨ m = 9 ∨ m = 11 then 30
  else 31

/-- A date that there is. -/
@[ext]
structure Date where
  year : Int
  month : Nat
  day : Nat
  month_pos : 1 ≤ month
  month_le : month ≤ 12
  day_pos : 1 ≤ day
  day_le : day ≤ monthLength year month

/-- The days before the first of January. -/
def yearStart (y : Int) : Int := 365 * (y - 1) + (y - 1) / 4 - (y - 1) / 100 + (y - 1) / 400

/-- The days of the year before the first of the month. -/
def monthStart (y : Int) : Nat → Int
  | 0 => 0
  | 1 => 0
  | m + 2 => monthStart y (m + 1) + monthLength y (m + 1)

def Date.ordinal (d : Date) : Int := yearStart d.year + monthStart d.year d.month + d.day

/-- The day of the week, Sunday being day zero. -/
def Date.weekday (d : Date) : Int := d.ordinal % 7

theorem monthLength_pos (y : Int) (m : Nat) : 1 ≤ monthLength y m := by
  unfold monthLength
  split
  · split <;> omega
  · split <;> omega

/-- The day after. -/
def Date.next (d : Date) : Date :=
  if hday : d.day < monthLength d.year d.month then
    { d with day := d.day + 1, day_pos := Nat.le_add_left 1 d.day, day_le := hday }
  else if hmonth : d.month < 12 then
    { year := d.year, month := d.month + 1, day := 1, month_pos := Nat.le_add_left 1 d.month,
      month_le := hmonth, day_pos := Nat.le_refl 1, day_le := monthLength_pos _ _ }
  else
    { year := d.year + 1, month := 1, day := 1, month_pos := Nat.le_refl 1,
      month_le := Nat.le_add_left 1 11, day_pos := Nat.le_refl 1, day_le := monthLength_pos _ _ }

/-! ## Where months and years begin -/

section Starts

variable {y z : Int} {m n : Nat}

theorem monthStart_succ (hm : 1 ≤ m) : monthStart y (m + 1) = monthStart y m + monthLength y m := by
  obtain ⟨m, rfl⟩ : ∃ k, m = k + 1 := ⟨m - 1, by omega⟩
  rfl

/-- Where a month begins, with the leap day apart. -/
theorem monthStart_eq (hpos : 1 ≤ m) (hle : m ≤ 12) :
    monthStart y m = (367 * m - 362) / 12 -
      (if m ≤ 2 then 0 else if IsLeap y then 1 else 2) := by
  have hcases : m = 1 ∨ m = 2 ∨ m = 3 ∨ m = 4 ∨ m = 5 ∨ m = 6 ∨ m = 7 ∨ m = 8 ∨ m = 9 ∨ m = 10 ∨
      m = 11 ∨ m = 12 := by omega
  by_cases hleap : IsLeap y
  all_goals
    rcases hcases with rfl | rfl | rfl | rfl | rfl | rfl | rfl | rfl | rfl | rfl | rfl | rfl <;>
      simp [monthStart, monthLength, hleap]

theorem yearStart_succ : yearStart (y + 1) = yearStart y + (if IsLeap y then 366 else 365) := by
  unfold yearStart
  by_cases hleap : IsLeap y
  all_goals
    simp only [hleap, if_true, if_false]
    unfold IsLeap at hleap
    omega

theorem yearStart_le (h : y < z) : yearStart (y + 1) ≤ yearStart z := by
  unfold yearStart
  omega

theorem monthStart_le (hm : 1 ≤ m) (h : m < n) : monthStart y (m + 1) ≤ monthStart y n := by
  induction n with
  | zero => omega
  | succ n ih =>
    rcases Nat.lt_succ_iff_lt_or_eq.mp h with hlt | rfl
    · have := ih hlt
      rw [monthStart_succ (m := n) (by omega)]
      omega
    · exact Int.le_refl _

/-- The months of a year end with it. -/
theorem monthStart_last : monthStart y 12 + monthLength y 12 = if IsLeap y then 366 else 365 := by
  rw [monthStart_eq (by omega) (by omega)]
  by_cases hleap : IsLeap y <;> simp [hleap, monthLength]

end Starts

namespace Date

variable {d e : Date}

theorem monthStart_lt (d : Date) :
    monthStart d.year d.month + d.day ≤ if IsLeap d.year then 366 else 365 := by
  have hday := d.day_le
  have hsucc := monthStart_succ (y := d.year) d.month_pos
  have hlast := monthStart_last (y := d.year)
  rcases Nat.lt_or_eq_of_le d.month_le with hlt | heq
  · have hle := monthStart_le (y := d.year) d.month_pos hlt
    have hlen := monthLength_pos d.year 12
    omega
  · rw [heq] at hday ⊢
    omega

theorem monthStart_nonneg (d : Date) : 0 ≤ monthStart d.year d.month := by
  rcases Nat.lt_or_eq_of_le d.month_pos with hlt | heq
  · have hle := monthStart_le (y := d.year) (Nat.le_refl 1) hlt
    have hone : monthStart d.year (1 + 1) = 0 + monthLength d.year 1 := rfl
    omega
  · rw [← heq]
    exact Int.le_refl 0

/-- **The day after a date** has the next place. -/
theorem ordinal_next (d : Date) : d.next.ordinal = d.ordinal + 1 := by
  have hday := d.day_le
  unfold next
  split
  · simp only [ordinal]
    omega
  · split
    · simp only [ordinal]
      rw [monthStart_succ d.month_pos]
      omega
    · have hmonth : d.month = 12 := by have := d.month_le; omega
      have hlast := monthStart_last (y := d.year)
      rename_i hfull _
      rw [hmonth] at hfull hday
      simp only [ordinal, monthStart, hmonth, yearStart_succ]
      simp only [monthStart] at hlast
      omega

/-- The place of a date is one of its year. -/
theorem ordinal_year (d : Date) :
    yearStart d.year < d.ordinal ∧ d.ordinal ≤ yearStart (d.year + 1) := by
  have hpos := d.day_pos
  have hlt := d.monthStart_lt
  have hnonneg := d.monthStart_nonneg
  rw [yearStart_succ]
  unfold ordinal
  omega

theorem year_eq (h : d.ordinal = e.ordinal) : d.year = e.year := by
  have hd := d.ordinal_year
  have he := e.ordinal_year
  rcases Int.lt_trichotomy d.year e.year with hlt | heq | hlt
  · have := yearStart_le hlt
    omega
  · exact heq
  · have := yearStart_le hlt
    omega

theorem month_eq (hyear : d.year = e.year) (h : d.ordinal = e.ordinal) : d.month = e.month := by
  have hd := d.day_le
  have he := e.day_le
  have hdpos := d.day_pos
  have hepos := e.day_pos
  have hdsucc := monthStart_succ (y := d.year) d.month_pos
  have hesucc := monthStart_succ (y := e.year) e.month_pos
  unfold ordinal at h
  rw [hyear] at h hd hdsucc
  rcases Nat.lt_trichotomy d.month e.month with hlt | heq | hlt
  · have := monthStart_le (y := e.year) d.month_pos hlt
    omega
  · exact heq
  · have := monthStart_le (y := e.year) e.month_pos hlt
    omega

/-- **Two dates with one place** are one date. -/
theorem ordinal_injective (h : d.ordinal = e.ordinal) : d = e := by
  have hyear := year_eq h
  have hmonth := month_eq hyear h
  refine Date.ext hyear hmonth ?_
  unfold ordinal at h
  rw [hyear, hmonth] at h
  omega

/-- Where the leap day is counted, a year with its months after February is the next year. -/
theorem ordinal_eq (d : Date) :
    d.ordinal = 365 * (d.year - 1) + (if d.month ≤ 2 then d.year - 1 else d.year) / 4 -
      (if d.month ≤ 2 then d.year - 1 else d.year) / 100 +
      (if d.month ≤ 2 then d.year - 1 else d.year) / 400 +
      (367 * d.month - 362) / 12 - (if d.month ≤ 2 then 0 else 2) + d.day := by
  unfold ordinal
  rw [monthStart_eq d.month_pos d.month_le]
  unfold yearStart
  by_cases hmonth : d.month ≤ 2
  · simp only [hmonth, if_true]
    omega
  · by_cases hleap : IsLeap d.year
    all_goals
      simp only [hmonth, hleap, if_true, if_false]
      unfold IsLeap at hleap
      omega

/-- **The same date whole centuries later**. -/
theorem weekday_centuries {k : Int} (hyear : e.year = d.year + 100 * k) (hmonth : e.month = d.month)
    (hday : e.day = d.day) : e.weekday = d.weekday ↔ k % 4 = 0 := by
  unfold weekday
  rw [ordinal_eq d, ordinal_eq e, hyear, hmonth, hday]
  split <;> omega

theorem monthLength_cycles (y k : Int) (m : Nat) :
    monthLength (y + 400 * k) m = monthLength y m := by
  have hleap : IsLeap (y + 400 * k) ↔ IsLeap y := by
    unfold IsLeap
    omega
  unfold monthLength
  simp only [hleap]

/-- The same date whole cycles of four centuries later. -/
def cycles (d : Date) (k : Int) : Date :=
  { d with
    year := d.year + 400 * k
    day_le := (monthLength_cycles d.year k d.month).symm ▸ d.day_le }

theorem ordinal_cycles (d : Date) (k : Int) : (d.cycles k).ordinal = d.ordinal + 146097 * k := by
  rw [ordinal_eq d, ordinal_eq (d.cycles k)]
  simp only [cycles]
  split <;> omega

end Date

end Calendar
