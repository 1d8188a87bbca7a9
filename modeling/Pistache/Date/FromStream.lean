import Pistache.Date.ToStream

/-!
# Reading dates

`from_stream` of the date library with the conversions that `FullDate` uses.  The loop over the
format sets the members of a `Trial`, each of which has a value that says that it has not been
read, and `resolve` is what follows the loop: the year of two digits, the check of the day of the
week, and the fields.
-/

set_option autoImplicit false

namespace Pistache.Date

open Istream

/-- The conversion of the seconds that have been read to nanoseconds, which goes through a
`long double`: seconds of two digits with at most nine digits behind the point are exact. -/
structure LongDouble where
  round_i : Decimal → Int
  exact : ∀ x, x.i < 100 → x.fcount ≤ 9 → x.f < 10 ^ x.fcount →
    round_i x = x.i * 10 ^ 9 + x.f * 10 ^ (9 - x.fcount)

/-- The nearest count of nanoseconds. -/
def LongDouble.nearest : LongDouble where
  round_i x := x.i * 10 ^ 9 + (x.f * 10 ^ 9 + 10 ^ x.fcount / 2) / 10 ^ x.fcount
  exact x _ hcount _ := by
    have hpos : (0 : Int) < 10 ^ x.fcount := Int.pow_pos (by decide)
    have hsplit : (10 : Int) ^ 9 = 10 ^ x.fcount * 10 ^ (9 - x.fcount) := by
      rw [← Int.pow_add, Nat.add_sub_cancel' hcount]
    have hhalf : (10 : Int) ^ x.fcount / 2 / 10 ^ x.fcount = 0 :=
      Int.ediv_eq_zero_of_lt (by omega) (by omega)
    have hwhole : (x.f : Int) * 10 ^ 9 = 10 ^ x.fcount * (x.f * 10 ^ (9 - x.fcount)) := by
      rw [hsplit, Int.mul_left_comm]
    rw [hwhole, Int.add_comm (10 ^ x.fcount * _), Int.add_mul_ediv_left _ _ (Int.ne_of_gt hpos),
      hhalf, Int.zero_add]

/-- The sentinels of `from_stream`. -/
def not_a_year : Int := -32768
def not_a_2digit_year : Int := 100
def not_a_month : Int := 0
def not_a_day : Int := 0
def not_a_hour : Int := -2 ^ 31
def not_a_minute : Int := -2 ^ 31
def not_a_second : Int := -2 ^ 63
def not_a_weekday : Int := 8

/-- The local variables of `from_stream`. -/
structure Trial where
  Y : Int
  y : Int
  m : Int
  d : Int
  wd : Int
  H : Int
  M : Int
  s : Int
  temp_abbrev : Bytes
  deriving DecidableEq, Repr

def Trial.initial : Trial :=
  { Y := not_a_year, y := not_a_2digit_year, m := not_a_month, d := not_a_day,
    wd := not_a_weekday, H := not_a_hour, M := not_a_minute, s := not_a_second, temp_abbrev := [] }

/-- `checked_set`. -/
def checked_set {α : Type} [DecidableEq α] (value : α) (from_ not_a_value : α) (is : Istream) :
    α × Istream :=
  if is.failbit then (value, is)
  else if value = not_a_value then (from_, is)
  else if value ≠ from_ then (value, is.setFail)
  else (value, is)

/-- The characters of the name of a time zone. -/
def isZone (c : UInt8) : Bool :=
  (48 ≤ c && c ≤ 57) || (65 ≤ c && c ≤ 90) || (97 ≤ c && c ≤ 122) ||
    c = 95 || c = 47 || c = 45 || c = 43

/-- The loop of `%Z`. -/
def read_zone (is : Istream) : Bytes × Istream :=
  if is.good then
    let rest := is.rest.dropWhile isZone
    (is.rest.takeWhile isZone, { is with rest, eofbit := rest = [] })
  else ([], is)

/-- The hours, the minutes and the seconds of `%T`. -/
def read_time (is : Istream) : Option (Nat × Nat × Decimal) × Istream :=
  let (tH, is) := read_unsigned 1 2 is
  if is.failbit then (none, is)
  else
    let is := read_char 58 is
    if is.failbit then (none, is)
    else
      let (tM, is) := read_unsigned 1 2 is
      if is.failbit then (none, is)
      else
        let is := read_char 58 is
        if is.failbit then (none, is)
        else
          let (S, is) := read_long_double 1 12 is
          if is.failbit then (none, is) else (some (tH, tM, S), is)

/-- One directive of the format. -/
def Directive.read (ld : LongDouble) (trial : Trial) (is : Istream) :
    Directive → Trial × Istream
  | .a | .A =>
    match scan_keyword weekday_names is with
    | (some i, is) =>
      let set := checked_set trial.wd (i % 7 : Nat) not_a_weekday is
      ({ trial with wd := set.1 }, set.2)
    | (none, is) => (trial, is)
  | .b =>
    match scan_keyword month_names is with
    | (some i, is) =>
      let set := checked_set trial.m (i % 12 + 1 : Nat) not_a_month is
      ({ trial with m := set.1 }, set.2)
    | (none, is) => (trial, is)
  | .d =>
    let (td, is) := read_signed 1 2 is
    let set := checked_set trial.d td not_a_day is
    ({ trial with d := set.1 }, set.2)
  | .Y =>
    let (tY, is) := read_signed 1 4 is
    let set := checked_set trial.Y tY not_a_year is
    ({ trial with Y := set.1 }, set.2)
  | .y =>
    let (ty, is) := read_unsigned 1 2 is
    let set := checked_set trial.y ty not_a_2digit_year is
    ({ trial with y := set.1 }, set.2)
  | .T =>
    match read_time is with
    | (some (tH, tM, S), is) =>
      let setH := checked_set trial.H tH not_a_hour is
      let setM := checked_set trial.M tM not_a_minute setH.2
      let setS := checked_set trial.s (ld.round_i S) not_a_second setM.2
      ({ trial with H := setH.1, M := setM.1, s := setS.1 }, setS.2)
    | (none, is) => (trial, is)
  | .Z =>
    let (buf, is) := read_zone is
    let set := checked_set trial.temp_abbrev buf [] (if buf = [] then is.setFail else is)
    ({ trial with temp_abbrev := set.1 }, set.2)
  | .text c => (trial, if isspace c then if is.good then is.ws else is else read_char c is)

/-- The loop over the format. -/
def from_streamLoop (ld : LongDouble) : List Directive → Trial → Istream → Trial × Istream
  | [], trial, is => (trial, is)
  | dir :: fmt, trial, is =>
    if is.failbit then (trial, is)
    else from_streamLoop ld fmt (dir.read ld trial is).1 (dir.read ld trial is).2

/-- The year from a year of two digits, none at `goto broken`. -/
def resolveYear (Y y : Int) : Option Int :=
  if y ≠ not_a_2digit_year then
    if ¬(0 ≤ y ∧ y ≤ 99) then none
    else
      let C : Int :=
        if Y = not_a_year then if y ≥ 69 then 19 else 20
        else (if Y ≥ 0 then Y else Y - 100).tdiv 100
      let tY := if C ≥ 0 then 100 * C + y else 100 * (C + 1) - (if y = 0 then 100 else y)
      if Y ≠ not_a_year ∧ Y ≠ tY then none else some tY
  else some Y

/-- The time of day. -/
def resolveTod (trial : Trial) : HhMmSs :=
  let tod := if trial.H ≠ not_a_hour then HhMmSs.ofDuration (trial.H * hour) else .ofDuration 0
  let tod := if trial.M ≠ not_a_minute then { tod with m_ := trial.M } else tod
  if trial.s ≠ not_a_second then
    { tod with s_ := trial.s.tdiv second, sub_s_ := trial.s - trial.s.tdiv second * second }
  else tod

/-- `year{Y}/m/d`, after the check of the year. -/
def Trial.ymd (trial : Trial) (Y : Int) : YearMonthDay :=
  { y_ := short (if Y < -32767 ∨ Y > 32767 then not_a_year else Y)
    m_ := (trial.m % 256).toNat
    d_ := (trial.d % 256).toNat }

/-- The date, none at `goto broken`. -/
def resolveDate (trial : Trial) : Option YearMonthDay :=
  match resolveYear trial.Y trial.y with
  | none => none
  | some Y =>
    if (trial.ymd Y).ok ∧ trial.wd ≠ not_a_weekday ∧
        trial.wd ≠ weekday_from_days (trial.ymd Y).to_days then none
    else some (trial.ymd Y)

/-- What follows the loop. -/
def resolve (trial : Trial) : Option Fields :=
  (resolveDate trial).map fun ymd =>
    { ymd
      wd :=
        if trial.wd ≠ not_a_weekday then trial.wd.toNat
        else if ymd.ok then weekday_from_days ymd.to_days
        else 8
      tod := resolveTod trial
      has_tod := true }

/-- A count of nanoseconds in 64 bits; the sum wraps around. -/
def nanoseconds (n : Int) : Int := n.bmod (2 ^ 64)

/-- What `from_stream` into a `sys_time` makes of the members, none where it sets the fail bit. -/
def accept (trial : Trial) : Option Int :=
  match resolve trial with
  | none => none
  | some fds =>
    if fds.ymd.ok ∧ fds.tod.in_conventional_range then
      some (nanoseconds (fds.ymd.to_days * day + fds.tod.to_duration))
    else none

/-- `from_stream` into a `sys_time`, none where the stream fails. -/
def from_stream (ld : LongDouble) (fmt : List Directive) (text : Bytes) : Option Int :=
  if (from_streamLoop ld fmt .initial (ofText text)).2.failbit then none
  else accept (from_streamLoop ld fmt .initial (ofText text)).1

/-! ## Reading what has been written -/

section Reads

variable {ld : LongDouble} {trial : Trial} {rest : Bytes} {c : UInt8}

theorem checked_set_new {α : Type} [DecidableEq α] {value from_ not_a_value : α}
    (h : value = not_a_value) (text : Bytes) :
    checked_set value from_ not_a_value (ofText text) = (from_, ofText text) := by
  unfold checked_set
  rw [if_neg (by rw [ofText_failbit]; exact Bool.false_ne_true), if_pos h]

/-- A member that is checked without failure has the value that has been read. -/
theorem checked_set_value {α : Type} [DecidableEq α] {value from_ not_a_value : α} {is : Istream}
    (h : (checked_set value from_ not_a_value is).2.failbit = false) :
    (checked_set value from_ not_a_value is).1 = from_ := by
  unfold checked_set at h ⊢
  split
  · rename_i hfail
    rw [if_pos hfail, hfail] at h
    cases h
  · rename_i hgood
    rw [if_neg hgood] at h
    split
    · rfl
    · rename_i hset
      rw [if_neg hset] at h
      split
      · rename_i hne
        rw [if_pos hne] at h
        cases h
      · rename_i heq
        exact Decidable.not_not.mp heq

theorem scan_weekday {wd : Nat} (hwd : wd < 7) (hc : c = 44 ∨ c = 32) (rest : Bytes) :
    scan_keyword weekday_names (ofText (weekday_names.getD (wd + 7) [] ++ c :: rest)) =
      (some (wd + 7), ofText (c :: rest)) := by
  have hcases : wd = 0 ∨ wd = 1 ∨ wd = 2 ∨ wd = 3 ∨ wd = 4 ∨ wd = 5 ∨ wd = 6 := by omega
  rcases hc with rfl | rfl <;>
    rcases hcases with rfl | rfl | rfl | rfl | rfl | rfl | rfl <;> rfl

/-- The names of May are one name, which stands at two places of the table. -/
theorem scan_month {m : Nat} (hpos : 1 ≤ m) (hle : m ≤ 12) (hc : c = 45 ∨ c = 32) (rest : Bytes) :
    ∃ i, scan_keyword month_names (ofText (month_names.getD (m - 1 + 12) [] ++ c :: rest)) =
      (some i, ofText (c :: rest)) ∧ i % 12 + 1 = m := by
  have hcases : m = 1 ∨ m = 2 ∨ m = 3 ∨ m = 4 ∨ m = 5 ∨ m = 6 ∨ m = 7 ∨ m = 8 ∨ m = 9 ∨ m = 10 ∨
      m = 11 ∨ m = 12 := by omega
  rcases hc with rfl | rfl <;>
    rcases hcases with rfl | rfl | rfl | rfl | rfl | rfl | rfl | rfl | rfl | rfl | rfl | rfl <;>
      exact ⟨_, rfl, rfl⟩

theorem read_a {wd : Nat} (hwd : wd < 7) (hc : c = 44 ∨ c = 32) (hnew : trial.wd = not_a_weekday)
    (rest : Bytes) :
    Directive.a.read ld trial (ofText (weekday_names.getD (wd + 7) [] ++ c :: rest)) =
      ({ trial with wd := wd }, ofText (c :: rest)) := by
  have hmod : (wd + 7) % 7 = wd := by omega
  simp only [Directive.read, scan_weekday hwd hc rest, checked_set_new hnew, hmod]

theorem read_b {m : Nat} (hpos : 1 ≤ m) (hle : m ≤ 12) (hc : c = 45 ∨ c = 32)
    (hnew : trial.m = not_a_month) (rest : Bytes) :
    Directive.b.read ld trial (ofText (month_names.getD (m - 1 + 12) [] ++ c :: rest)) =
      ({ trial with m := m }, ofText (c :: rest)) := by
  obtain ⟨i, hscan, hi⟩ := scan_month hpos hle hc rest
  simp only [Directive.read, hscan, checked_set_new hnew, hi]

theorem read_unsigned_decimal {w n : Nat} (hw : 0 < w) (hn : n < 10 ^ w) (rest : Bytes) :
    read_unsigned 1 w (ofText (decimal w n ++ rest)) = (n, ofText rest) := by
  rw [read_unsigned_reads (isdigit_decimal w n) (by rw [length_decimal]; exact hw)
    (by rw [length_decimal]) (.inl ⟨length_decimal w n, decimal_ne_nil hw⟩),
    value_decimal w n hn]

theorem read_signed_decimal {w n : Nat} (hw : 0 < w) (hn : n < 10 ^ w) (rest : Bytes) :
    read_signed 1 w (ofText (decimal w n ++ rest)) = ((n : Int), ofText rest) := by
  rw [read_signed_reads (isdigit_decimal w n) (by rw [length_decimal]; exact Nat.max_le.mpr ⟨hw, hw⟩)
    (by rw [length_decimal]) (.inl ⟨length_decimal w n, decimal_ne_nil hw⟩),
    value_decimal w n hn]

theorem read_d {n : Nat} (hn : n < 100) (hnew : trial.d = not_a_day) (rest : Bytes) :
    Directive.d.read ld trial (ofText (decimal 2 n ++ rest)) =
      ({ trial with d := n }, ofText rest) := by
  simp only [Directive.read, read_signed_decimal (show 0 < 2 by decide) hn, checked_set_new hnew]

theorem read_Y {n : Nat} (hn : n < 10000) (hnew : trial.Y = not_a_year) (rest : Bytes) :
    Directive.Y.read ld trial (ofText (decimal 4 n ++ rest)) =
      ({ trial with Y := n }, ofText rest) := by
  simp only [Directive.read, read_signed_decimal (show 0 < 4 by decide) hn, checked_set_new hnew]

/-- A year of two digits where one of four would be taken, up to the character behind it. -/
theorem read_Y_two {n : Nat} (hn : n < 100) (hnew : trial.Y = not_a_year) (hrest : NoDigit rest) :
    Directive.Y.read ld trial (ofText (decimal 2 n ++ rest)) =
      ({ trial with Y := n }, ofText rest) := by
  have hread := read_signed_reads (m := 1) (M := 4) (isdigit_decimal 2 n)
    (by rw [length_decimal]; decide) (by rw [length_decimal]; decide) (.inr hrest)
  rw [value_decimal 2 n hn] at hread
  simp only [Directive.read, hread, checked_set_new hnew]

theorem read_y {n : Nat} (hn : n < 100) (hnew : trial.y = not_a_2digit_year) (rest : Bytes) :
    Directive.y.read ld trial (ofText (decimal 2 n ++ rest)) =
      ({ trial with y := n }, ofText rest) := by
  simp only [Directive.read, read_unsigned_decimal (show 0 < 2 by decide) hn,
    checked_set_new hnew]

/-- The text of a time of day. -/
def clockText (c : Clock) : Bytes :=
  decimal 2 c.h ++ 58 :: (decimal 2 c.m ++ 58 :: (decimal 2 c.s ++ 46 :: decimal 9 c.ns))

theorem read_time_clock (c : Clock) (rest : Bytes) :
    read_time (ofText (clockText c ++ rest)) = (some (c.h, c.m, ⟨c.s, c.ns, 9⟩), ofText rest) := by
  have h₁ := c.h_lt
  have h₂ := c.m_lt
  have h₃ := c.s_lt
  have hseconds : read_long_double 1 12 (ofText (decimal 2 c.s ++ 46 :: (decimal 9 c.ns ++ rest))) =
      _ := read_long_double_reads (isdigit_decimal 2 c.s) (isdigit_decimal 9 c.ns)
    (decimal_ne_nil (by decide)) (by rw [length_decimal, length_decimal])
  rw [value_decimal 2 c.s (by omega), value_decimal 9 c.ns c.ns_lt, length_decimal] at hseconds
  have htext : clockText c ++ rest = decimal 2 c.h ++ 58 :: (decimal 2 c.m ++ 58 ::
      (decimal 2 c.s ++ 46 :: (decimal 9 c.ns ++ rest))) := by
    simp only [clockText, List.append_assoc, List.cons_append]
  rw [htext]
  simp only [read_time, read_unsigned_decimal (show 0 < 2 by decide) (show c.h < 10 ^ 2 by omega),
    read_unsigned_decimal (show 0 < 2 by decide) (show c.m < 10 ^ 2 by omega), read_char_cons,
    hseconds, ofText_failbit, Bool.false_eq_true, if_false]

theorem read_T {c : Clock} (hH : trial.H = not_a_hour) (hM : trial.M = not_a_minute)
    (hs : trial.s = not_a_second) (rest : Bytes) :
    Directive.T.read ld trial (ofText (clockText c ++ rest)) =
      ({ trial with H := c.h, M := c.m, s := c.s * second + c.ns }, ofText rest) := by
  have h₃ := c.s_lt
  have hround : ld.round_i ⟨c.s, c.ns, 9⟩ = c.s * second + c.ns := by
    rw [ld.exact _ (by simp only []; omega) (Nat.le_refl 9) c.ns_lt]
    simp only [Nat.sub_self, second]
    omega
  simp only [Directive.read, read_time_clock, checked_set_new hH, checked_set_new hM,
    checked_set_new hs, hround]

/-- The name of a time zone at the end of the text. -/
theorem read_Z {zone : Bytes} (hne : zone ≠ []) (hzone : ∀ c ∈ zone, isZone c = true)
    (hnew : trial.temp_abbrev = []) :
    Directive.Z.read ld trial (ofText zone) =
      ({ trial with temp_abbrev := zone }, (ofText []).setEof) := by
  have htake : zone.takeWhile isZone = zone := List.takeWhile_eq_self_iff.mpr hzone
  have hdrop : zone.dropWhile isZone = [] := List.dropWhile_eq_nil_iff.mpr hzone
  simp only [Directive.read, read_zone, ofText_good, if_true, ofText_rest, htake, hdrop, hne,
    if_false, checked_set, hnew]
  rfl

theorem read_text (hc : isspace c = false) (rest : Bytes) :
    (Directive.text c).read ld trial (ofText (c :: rest)) = (trial, ofText rest) := by
  simp only [Directive.read, hc, Bool.false_eq_true, if_false, read_char_cons]

/-- A blank of the format takes the blanks of the text. -/
theorem read_blank {d : UInt8} (hd : isspace d = false) (rest : Bytes) :
    (Directive.text 32).read ld trial (ofText (32 :: d :: rest)) =
      (trial, ofText (d :: rest)) := by
  have hdrop : (32 :: d :: rest).dropWhile isspace = d :: rest := by
    rw [List.dropWhile_cons_of_pos (by decide), List.dropWhile_cons_of_neg (by rw [hd]; decide)]
  simp only [Directive.read, show isspace 32 = true by decide, if_true, ofText_good, ws,
    ofText_rest, hdrop]
  rfl

end Reads

/-! ## The loop -/

section Loop

variable {ld : LongDouble} {trial trial' : Trial} {dir : Directive} {fmt : List Directive}
  {text rest : Bytes}

theorem loop_step (dir : Directive) (fmt : List Directive) (trial : Trial) (text : Bytes) :
    from_streamLoop ld (dir :: fmt) trial (ofText text) =
      from_streamLoop ld fmt (dir.read ld trial (ofText text)).1
        (dir.read ld trial (ofText text)).2 := by
  rw [from_streamLoop, if_neg (by rw [ofText_failbit]; exact Bool.false_ne_true)]

theorem loop_cons (h : dir.read ld trial (ofText text) = (trial', ofText rest)) :
    from_streamLoop ld (dir :: fmt) trial (ofText text) =
      from_streamLoop ld fmt trial' (ofText rest) := by
  rw [loop_step, h]

theorem loop_failbit {is : Istream} (h : is.failbit = true) :
    from_streamLoop ld fmt trial is = (trial, is) := by
  cases fmt with
  | nil => rfl
  | cons dir fmt => rw [from_streamLoop, if_pos h]

/-- A directive that fails is the last one. -/
theorem loop_fail (h : (dir.read ld trial (ofText text)).2.failbit = true) :
    (from_streamLoop ld (dir :: fmt) trial (ofText text)).2.failbit = true := by
  rw [loop_step, loop_failbit h]
  exact h

end Loop

/-! ## What is accepted -/

section Accept

variable {trial : Trial} {n : Int}

theorem resolveTod_clock {c : Clock} (hH : trial.H = c.h) (hM : trial.M = c.m)
    (hs : trial.s = c.s * second + c.ns) : resolveTod trial = c.hms := by
  have h₃ := c.s_lt
  have h₄ : (c.ns : Int) < second := Int.ofNat_lt.mpr c.ns_lt
  have hsec : (c.s * second + c.ns : Int).tdiv second = c.s := by
    rw [Int.tdiv_eq_ediv_of_nonneg (by unfold second; omega)]
    unfold second at *
    omega
  have hhour := Clock.ofDuration_toDuration
    ⟨c.h, 0, 0, 0, c.h_lt, by decide, by decide, by decide⟩
  have hduration : (c.h : Int) * hour = Clock.toDuration
      ⟨c.h, 0, 0, 0, c.h_lt, by decide, by decide, by decide⟩ := by
    simp [Clock.toDuration]
  have hH' : trial.H ≠ not_a_hour := by rw [hH]; unfold not_a_hour; omega
  have hM' : trial.M ≠ not_a_minute := by rw [hM]; unfold not_a_minute; omega
  have hs' : trial.s ≠ not_a_second := by rw [hs]; unfold not_a_second second; omega
  unfold resolveTod
  dsimp only
  rw [if_pos hH', if_pos hM', if_pos hs', hH, hM, hs, hduration, hhour, hsec,
    Int.add_comm _ (c.ns : Int), Int.add_sub_cancel]
  rfl

theorem accept_eq_some : accept trial = some n ↔
    ∃ ymd, resolveDate trial = some ymd ∧ ymd.ok = true ∧
      (resolveTod trial).in_conventional_range = true ∧
      n = nanoseconds (ymd.to_days * day + (resolveTod trial).to_duration) := by
  unfold accept resolve
  cases resolveDate trial with
  | none => simp
  | some ymd =>
    simp only [Option.map_some, Option.some.injEq, exists_eq_left']
    split
    · rename_i hok
      rw [Option.some.injEq, eq_comm]
      exact ⟨fun h => ⟨hok.1, hok.2, h⟩, fun h => h.2.2⟩
    · rename_i hok
      refine iff_of_false ?_ fun h => hok ⟨h.1, h.2.1⟩
      intro h
      cases h

/-- The date that the members give. -/
structure Resolved (trial : Trial) (e : Calendar.Date) : Prop where
  year : resolveYear trial.Y trial.y = some e.year
  year_ge : -32767 ≤ e.year
  year_le : e.year ≤ 32767
  month : trial.m % 256 = e.month
  day : trial.d % 256 = e.day
  weekday : trial.wd ≠ not_a_weekday → trial.wd = e.weekday

theorem weekday_ofDate {e : Calendar.Date} (hlo : -32767 ≤ e.year) (hhi : e.year ≤ 32767) :
    (weekday_from_days (YearMonthDay.ofDate e).to_days : Int) = e.weekday :=
  YearMonthDay.weekday_eq (YearMonthDay.counted_ofDate hlo hhi) (by
    rw [YearMonthDay.to_days_ofDate]
    omega)

/-- The members give a date of the calendar, its year being one of a `short`. -/
theorem ymd_ok_iff {Y : Int} :
    (trial.ymd Y).ok = true ↔ ∃ e : Calendar.Date, trial.ymd Y = .ofDate e ∧ e.year = Y ∧
      -32767 ≤ Y ∧ Y ≤ 32767 ∧ trial.m % 256 = e.month ∧ trial.d % 256 = e.day := by
  constructor
  · intro hok
    obtain ⟨e, he⟩ := YearMonthDay.ok_date hok
    have hy := congrArg YearMonthDay.y_ he
    have hm := congrArg YearMonthDay.m_ he
    have hd := congrArg YearMonthDay.d_ he
    simp only [Trial.ymd, YearMonthDay.ofDate_y, YearMonthDay.ofDate_m,
      YearMonthDay.ofDate_d] at hy hm hd
    by_cases hrange : Y < -32767 ∨ Y > 32767
    · rw [if_pos hrange, short_eq (by decide) (by decide)] at hy
      rw [he, YearMonthDay.ok, decide_eq_true_iff] at hok
      exact absurd hy.symm hok.1
    · rw [if_neg hrange, short_eq (by omega) (by omega)] at hy
      exact ⟨e, he, hy.symm, by omega, by omega, by omega, by omega⟩
  · rintro ⟨e, he, hy, hlo, hhi, -, -⟩
    rw [he]
    exact YearMonthDay.ok_ofDate (by omega)

/-- The date passes if and only if it is one of the calendar on the day of the week. -/
theorem resolveDate_iff {ymd : YearMonthDay} :
    resolveDate trial = some ymd ∧ ymd.ok = true ↔ ∃ e, ymd = .ofDate e ∧ Resolved trial e := by
  unfold resolveDate
  constructor
  · rintro ⟨h, hok⟩
    split at h
    · cases h
    · rename_i Y hY
      split at h
      · cases h
      · rename_i hpass
        injection h with h
        rw [← h] at hok
        obtain ⟨e, he, hy, hlo, hhi, hm, hd⟩ := ymd_ok_iff.mp hok
        refine ⟨e, h.symm.trans he, ⟨by rw [hy]; exact hY, by omega, by omega, hm, hd, ?_⟩⟩
        intro hwd
        rw [← weekday_ofDate (e := e) (by omega) (by omega), ← he]
        exact Decidable.not_not.mp fun hne => hpass ⟨hok, hwd, hne⟩
  · rintro ⟨e, rfl, he⟩
    have hymd : trial.ymd e.year = .ofDate e := by
      have hlo := he.year_ge
      have hhi := he.year_le
      unfold Trial.ymd
      rw [if_neg (by omega), short_eq (by omega) (by omega), he.month, he.day]
      rfl
    have hok := YearMonthDay.ok_ofDate (d := e) (by have := he.year_ge; omega)
    refine ⟨?_, hok⟩
    rw [he.year]
    dsimp only
    rw [hymd, if_neg]
    rintro ⟨-, hwd, hne⟩
    rw [weekday_ofDate he.year_ge he.year_le] at hne
    exact hne (he.weekday hwd)

/-- **What is accepted** is a date of the calendar on the day of the week that has been read, with
a time of day. -/
theorem accept_iff : accept trial = some n ↔
    ∃ e, Resolved trial e ∧ (resolveTod trial).in_conventional_range = true ∧
      n = nanoseconds ((e.ordinal - 719163) * day + (resolveTod trial).to_duration) := by
  rw [accept_eq_some]
  constructor
  · rintro ⟨ymd, hdate, hok, htod, hn⟩
    obtain ⟨e, rfl, he⟩ := resolveDate_iff.mp ⟨hdate, hok⟩
    rw [YearMonthDay.to_days_ofDate] at hn
    exact ⟨e, he, htod, hn⟩
  · rintro ⟨e, he, htod, hn⟩
    obtain ⟨hdate, hok⟩ := resolveDate_iff.mpr ⟨e, rfl, he⟩
    rw [← YearMonthDay.to_days_ofDate] at hn
    exact ⟨_, hdate, hok, htod, hn⟩

/-- With the members of a time of day. -/
theorem accept_clock {c : Clock} (hH : trial.H = c.h) (hM : trial.M = c.m)
    (hs : trial.s = c.s * second + c.ns) :
    accept trial = some n ↔ ∃ e, Resolved trial e ∧ n = nanoseconds (Moment.tp ⟨e, c⟩) := by
  rw [accept_iff, resolveTod_clock hH hM hs, c.to_duration_hms]
  exact exists_congr fun e => and_congr_right fun _ => and_iff_right c.hms_range

end Accept

end Pistache.Date
