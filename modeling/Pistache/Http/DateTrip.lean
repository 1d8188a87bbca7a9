import Pistache.Http.FullDate

/-!
# Dates there and back

The text of a date under each of the formats that `FullDate::fromString` tries.

* `fromString_write` — the formats that give a date back.
* `fromString_RFC850` — the years that the format of RFC 850 gives back, and the years it changes.
* `fromString_date` — what is read is a date of the calendar on its day of the week.
-/

set_option autoImplicit false

namespace Pistache.Http

open Date

namespace FullDate

/-! ## Reading the texts -/

open Istream

/-- A text that does not begin with a blank. -/
def Visible (text : Bytes) : Prop := ∃ c tail, text = c :: tail ∧ isspace c = false

theorem isspace_of_isdigit {c : UInt8} (h : isdigit c = true) : isspace c = false := by
  unfold isdigit at h
  unfold isspace
  rw [decide_eq_true_iff, UInt8.le_iff_toNat_le, UInt8.le_iff_toNat_le] at h
  rw [decide_eq_false_iff_not, UInt8.le_iff_toNat_le, UInt8.le_iff_toNat_le, ← UInt8.toNat_inj]
  have e₁ : (48 : UInt8).toNat = 48 := rfl
  have e₂ : (32 : UInt8).toNat = 32 := rfl
  have e₃ : (9 : UInt8).toNat = 9 := rfl
  have e₄ : (13 : UInt8).toNat = 13 := rfl
  omega

theorem visible_decimal {w n : Nat} (hw : 0 < w) (rest : Bytes) : Visible (decimal w n ++ rest) := by
  obtain ⟨c, tail, htext⟩ := List.exists_cons_of_ne_nil (decimal_ne_nil (n := n) hw)
  have hc := isdigit_decimal w n c (by rw [htext]; exact List.mem_cons_self)
  exact ⟨c, tail ++ rest, by rw [htext]; rfl, isspace_of_isdigit hc⟩

theorem visible_month (t : Moment) (rest : Bytes) : Visible (monthText t ++ rest) := by
  have hpos := t.date.month_pos
  have hle := t.date.month_le
  unfold monthText
  generalize t.date.month = m at *
  have hcases : m = 1 ∨ m = 2 ∨ m = 3 ∨ m = 4 ∨ m = 5 ∨ m = 6 ∨ m = 7 ∨ m = 8 ∨ m = 9 ∨ m = 10 ∨
      m = 11 ∨ m = 12 := by omega
  rcases hcases with rfl | rfl | rfl | rfl | rfl | rfl | rfl | rfl | rfl | rfl | rfl | rfl <;>
    exact ⟨_, _, rfl, rfl⟩

/-- A text that the readers take for a time of day. -/
structure Spells (ld : LongDouble) (clock : Bytes) (c : Clock) : Prop where
  visible : ∀ rest, Visible (clock ++ rest)
  reads : ∀ rest, ∃ S, read_time (ofText (clock ++ 32 :: rest)) =
    (some (c.h, c.m, S), ofText (32 :: rest)) ∧ ld.round_i S = c.s * second + c.ns

section Reading

variable {ld : LongDouble} {t : Moment} {clock zone rest : Bytes} {trial : Trial}

theorem spells_clockText (ld : LongDouble) (c : Clock) : Spells ld (clockText c) c where
  visible rest := by
    unfold clockText
    rw [List.append_assoc]
    exact visible_decimal (by decide) _
  reads rest := by
    have h₃ := c.s_lt
    refine ⟨_, read_time_clock c _, ?_⟩
    rw [ld.exact _ (by simp only []; omega) (Nat.le_refl 9) c.ns_lt]
    simp only [Nat.sub_self, second]
    omega

/-- Seconds without a fraction end at the blank. -/
theorem read_long_double_whole {n : Nat} (hn : n < 100) (rest : Bytes) :
    read_long_double 1 12 (ofText (decimal 2 n ++ 32 :: rest)) =
      (⟨n, 0, 0⟩, ofText (32 :: rest)) := by
  unfold read_long_double
  rw [if_pos ofText_good, ofText_rest, decimalLoop_int _ _ _ (isdigit_decimal 2 n)
    (by rw [length_decimal]; decide), value_decimal 2 n hn]
  have hstop : ¬((32 : UInt8) = 46 ∧ false = false) := by decide
  have hdigit : ¬isdigit 32 = true := by decide
  rw [length_decimal, decimalLoop, if_neg hstop, if_neg hdigit]
  rfl

theorem spells_secondsText (ld : LongDouble) {c : Clock} (hns : c.ns = 0) :
    Spells ld (secondsText c) c where
  visible rest := by
    unfold secondsText
    rw [List.append_assoc]
    exact visible_decimal (by decide) _
  reads rest := by
    have h₁ := c.h_lt
    have h₂ := c.m_lt
    have h₃ := c.s_lt
    refine ⟨⟨c.s, 0, 0⟩, ?_, ?_⟩
    · have htext : secondsText c ++ 32 :: rest =
          decimal 2 c.h ++ 58 :: (decimal 2 c.m ++ 58 :: (decimal 2 c.s ++ 32 :: rest)) := by
        simp only [secondsText, List.append_assoc, List.cons_append]
      rw [htext]
      simp only [read_time,
        read_unsigned_decimal (show 0 < 2 by decide) (show c.h < 10 ^ 2 by omega),
        read_unsigned_decimal (show 0 < 2 by decide) (show c.m < 10 ^ 2 by omega), read_char_cons,
        read_long_double_whole (show c.s < 100 by omega), ofText_failbit, Bool.false_eq_true,
        if_false]
    · rw [ld.exact _ (by simp only []; omega) (Nat.zero_le 9) Nat.one_pos, hns]
      simp only [second]
      omega

theorem read_T_spells {c : Clock} (h : Spells ld clock c) (hH : trial.H = not_a_hour)
    (hM : trial.M = not_a_minute) (hs : trial.s = not_a_second) (rest : Bytes) :
    Directive.T.read ld trial (ofText (clock ++ 32 :: rest)) =
      ({ trial with H := c.h, M := c.m, s := c.s * second + c.ns }, ofText (32 :: rest)) := by
  obtain ⟨S, hread, hround⟩ := h.reads rest
  simp only [Directive.read, hread, checked_set_new hH, checked_set_new hM, checked_set_new hs,
    hround]

theorem read_blank_visible (h : Visible rest) :
    (Directive.text 32).read ld trial (ofText (32 :: rest)) = (trial, ofText rest) := by
  obtain ⟨d, tail, rfl, hd⟩ := h
  exact read_blank hd tail

/-- The members after the loop, with the years that the format gives. -/
def trialOf (t : Moment) (Y y : Int) (zone : Bytes) : Trial :=
  { Y, y, m := t.date.month, d := t.date.day, wd := weekdayOf t, H := t.clock.h, M := t.clock.m,
    s := t.clock.s * second + t.clock.ns, temp_abbrev := zone }

/-- The time zone that is written. -/
structure Zone (zone : Bytes) : Prop where
  visible : Visible zone
  zone : ∀ c ∈ zone, isZone c = true

theorem Zone.ne_nil (h : Zone zone) : zone ≠ [] := by
  obtain ⟨c, tail, rfl, -⟩ := h.visible
  exact List.cons_ne_nil c tail

theorem zone_UTC : Zone (lit "UTC") := ⟨⟨_, _, rfl, rfl⟩, List.all_eq_true.mp (by decide)⟩
theorem zone_GMT : Zone (lit "GMT") := ⟨⟨_, _, rfl, rfl⟩, List.all_eq_true.mp (by decide)⟩

/-- The text of RFC 1123 under its format. -/
theorem loop_RFC_1123 (hlo : 1677 ≤ t.date.year) (hhi : t.date.year ≤ 2262)
    (hclock : Spells ld clock t.clock) (hzone : Zone zone) :
    from_streamLoop ld RFC_1123 .initial (ofText (textRFC_1123 t clock zone)) =
      (trialOf t t.date.year not_a_2digit_year zone, (ofText []).setEof) := by
  have hday := day_le t
  have hyear : ((t.date.year.toNat : Nat) : Int) = t.date.year := by omega
  unfold textRFC_1123 RFC_1123
  refine (loop_cons (read_a (weekdayOf_lt t) (.inl rfl) rfl _)).trans ?_
  refine (loop_cons (read_text (by decide) _)).trans ?_
  refine (loop_cons (read_blank_visible (visible_decimal (by decide) _))).trans ?_
  refine (loop_cons (read_d (by omega) rfl _)).trans ?_
  refine (loop_cons (read_blank_visible (visible_month t _))).trans ?_
  refine (loop_cons (read_b t.date.month_pos t.date.month_le (.inr rfl) rfl _)).trans ?_
  refine (loop_cons (read_blank_visible (visible_decimal (by decide) _))).trans ?_
  refine (loop_cons (read_Y (by omega) rfl _)).trans ?_
  refine (loop_cons (read_blank_visible (hclock.visible _))).trans ?_
  refine (loop_cons (read_T_spells hclock rfl rfl rfl _)).trans ?_
  refine (loop_cons (read_blank_visible hzone.visible)).trans ?_
  rw [loop_step, read_Z hzone.ne_nil hzone.zone rfl, hyear]
  rfl

/-- The text of RFC 850 under the variant of RFC 1123: the two digits are the year. -/
theorem loop_variant (hclock : Spells ld clock t.clock) (hzone : Zone zone) :
    from_streamLoop ld RFC_1123_variant .initial (ofText (textRFC_850 t clock zone)) =
      (trialOf t (t.date.year.toNat % 100 : Nat) not_a_2digit_year zone, (ofText []).setEof) := by
  have hday := day_le t
  unfold textRFC_850 RFC_1123_variant
  refine (loop_cons (read_a (weekdayOf_lt t) (.inl rfl) rfl _)).trans ?_
  refine (loop_cons (read_text (by decide) _)).trans ?_
  refine (loop_cons (read_blank_visible (visible_decimal (by decide) _))).trans ?_
  refine (loop_cons (read_d (by omega) rfl _)).trans ?_
  refine (loop_cons (read_text (by decide) _)).trans ?_
  refine (loop_cons (read_b t.date.month_pos t.date.month_le (.inl rfl) rfl _)).trans ?_
  refine (loop_cons (read_text (by decide) _)).trans ?_
  refine (loop_cons (read_Y_two (Nat.mod_lt _ (by decide)) rfl ⟨32, _, rfl, rfl⟩)).trans ?_
  refine (loop_cons (read_blank_visible (hclock.visible _))).trans ?_
  refine (loop_cons (read_T_spells hclock rfl rfl rfl _)).trans ?_
  refine (loop_cons (read_blank_visible hzone.visible)).trans ?_
  rw [loop_step, read_Z hzone.ne_nil hzone.zone rfl]
  rfl

/-- The text of RFC 850 under its own format. -/
theorem loop_RFC_850 (hclock : Spells ld clock t.clock) (hzone : Zone zone) :
    from_streamLoop ld RFC_850 .initial (ofText (textRFC_850 t clock zone)) =
      (trialOf t not_a_year (t.date.year.toNat % 100 : Nat) zone, (ofText []).setEof) := by
  have hday := day_le t
  unfold textRFC_850 RFC_850
  refine (loop_cons (read_a (weekdayOf_lt t) (.inl rfl) rfl _)).trans ?_
  refine (loop_cons (read_text (by decide) _)).trans ?_
  refine (loop_cons (read_blank_visible (visible_decimal (by decide) _))).trans ?_
  refine (loop_cons (read_d (by omega) rfl _)).trans ?_
  refine (loop_cons (read_text (by decide) _)).trans ?_
  refine (loop_cons (read_b t.date.month_pos t.date.month_le (.inl rfl) rfl _)).trans ?_
  refine (loop_cons (read_text (by decide) _)).trans ?_
  refine (loop_cons (read_y (Nat.mod_lt _ (by decide)) rfl _)).trans ?_
  refine (loop_cons (read_blank_visible (hclock.visible _))).trans ?_
  refine (loop_cons (read_T_spells hclock rfl rfl rfl _)).trans ?_
  refine (loop_cons (read_blank_visible hzone.visible)).trans ?_
  rw [loop_step, read_Z hzone.ne_nil hzone.zone rfl]
  rfl

/-- The text of `asctime` under its format. -/
theorem loop_asctime (hlo : 1677 ≤ t.date.year) (hhi : t.date.year ≤ 2262)
    (hclock : Spells ld clock t.clock) :
    from_streamLoop ld asctime .initial (ofText (textAsctime t clock)) =
      (trialOf t t.date.year not_a_2digit_year [], ofText []) := by
  have hday := day_le t
  have hyear : ((t.date.year.toNat : Nat) : Int) = t.date.year := by omega
  have hread : Directive.Y.read ld (trialOf t not_a_year not_a_2digit_year [])
      (ofText (decimal 4 t.date.year.toNat ++ [])) = _ := read_Y (by omega) rfl []
  rw [List.append_nil, hyear] at hread
  have hvisible := visible_decimal (n := t.date.year.toNat) (show 0 < 4 by decide) []
  rw [List.append_nil] at hvisible
  unfold textAsctime asctime
  refine (loop_cons (read_a (weekdayOf_lt t) (.inr rfl) rfl _)).trans ?_
  refine (loop_cons (read_blank_visible (visible_month t _))).trans ?_
  refine (loop_cons (read_b t.date.month_pos t.date.month_le (.inr rfl) rfl _)).trans ?_
  refine (loop_cons (read_blank_visible (visible_decimal (by decide) _))).trans ?_
  refine (loop_cons (read_d (by omega) rfl _)).trans ?_
  refine (loop_cons (read_blank_visible (hclock.visible _))).trans ?_
  refine (loop_cons (read_T_spells hclock rfl rfl rfl _)).trans ?_
  refine (loop_cons (read_blank_visible hvisible)).trans ?_
  exact loop_cons hread

/-! ## Formats that fail -/

theorem read_blank_none (h : Visible rest) :
    (Directive.text 32).read ld trial (ofText rest) = (trial, ofText rest) := by
  obtain ⟨d, tail, rfl, hd⟩ := h
  have hdrop : (d :: tail).dropWhile isspace = d :: tail :=
    List.dropWhile_cons_of_neg (by rw [hd]; exact Bool.false_ne_true)
  simp only [Directive.read, show isspace 32 = true by decide, if_true, ofText_good, ws,
    ofText_rest, hdrop]
  rfl

/-- No month begins with a separator. -/
theorem read_b_fails {c : UInt8} (hc : c = 44 ∨ c = 45) (trial : Trial) (rest : Bytes) :
    (Directive.b.read ld trial (ofText (c :: rest))).2.failbit = true := by
  rcases hc with rfl | rfl <;> rfl

/-- The blank behind the day of `asctime` is not the comma of the other formats. -/
theorem loop_comma_fails {dir : Directive} (hdir : dir = .a ∨ dir = .A) (fmt : List Directive)
    (rest : Bytes) :
    (from_streamLoop ld (dir :: .text 44 :: fmt) .initial
      (ofText (weekdayText t ++ 32 :: rest))).2.failbit = true := by
  have hread : Directive.a.read ld .initial (ofText (weekdayText t ++ 32 :: rest)) = _ :=
    read_a (weekdayOf_lt t) (.inr rfl) rfl rest
  have hname : dir.read ld .initial (ofText (weekdayText t ++ 32 :: rest)) =
      ({ Trial.initial with wd := weekdayOf t }, ofText (32 :: rest)) := by
    rcases hdir with rfl | rfl <;> exact hread
  rw [loop_cons hname]
  refine loop_fail ?_
  simp only [Directive.read, show isspace 44 = false by decide, Bool.false_eq_true, if_false]
  exact read_char_ne (by decide)

theorem loop_RFC_1123_fails (clock zone : Bytes) :
    (from_streamLoop ld RFC_1123 .initial
      (ofText (textRFC_850 t clock zone))).2.failbit = true := by
  have hday := day_le t
  unfold textRFC_850 RFC_1123 weekdayText
  rw [loop_cons (read_a (weekdayOf_lt t) (.inl rfl) rfl _),
    loop_cons (read_text (by decide) _),
    loop_cons (read_blank_visible (visible_decimal (by decide) _)),
    loop_cons (read_d (by omega) rfl _),
    loop_cons (read_blank_none ⟨45, _, rfl, rfl⟩)]
  exact loop_fail (read_b_fails (.inr rfl) _ _)

theorem loop_asctime_fails (clock zone : Bytes) :
    (from_streamLoop ld asctime .initial
      (ofText (textRFC_850 t clock zone))).2.failbit = true := by
  unfold textRFC_850 asctime weekdayText
  rw [loop_cons (read_a (weekdayOf_lt t) (.inl rfl) rfl _),
    loop_cons (read_blank_none ⟨44, _, rfl, rfl⟩)]
  exact loop_fail (read_b_fails (.inl rfl) _ _)

theorem parse_epoch_weekday (t : Moment) (rest : Bytes) :
    parse_epoch (weekdayText t ++ rest) = .ok none := by
  have hlt := weekdayOf_lt t
  have hcases : weekdayOf t = 0 ∨ weekdayOf t = 1 ∨ weekdayOf t = 2 ∨ weekdayOf t = 3 ∨
      weekdayOf t = 4 ∨ weekdayOf t = 5 ∨ weekdayOf t = 6 := by omega
  unfold weekdayText
  rcases hcases with h | h | h | h | h | h | h
  all_goals
    rw [h]
    rfl

/-! ## The members that are accepted -/

theorem from_stream_read {fmt : List Directive} {text : Bytes} {is : Istream}
    (h : from_streamLoop ld fmt .initial (ofText text) = (trial, is)) (his : is.failbit = false) :
    from_stream ld fmt text = accept trial := by
  unfold from_stream
  rw [h]
  exact if_neg (by rw [his]; exact Bool.false_ne_true)

theorem from_stream_fails {fmt : List Directive} {text : Bytes}
    (h : (from_streamLoop ld fmt .initial (ofText text)).2.failbit = true) :
    from_stream ld fmt text = none := if_pos h

theorem accept_trialOf {Y y n : Int} : accept (trialOf t Y y zone) = some n ↔
    ∃ e, Resolved (trialOf t Y y zone) e ∧ n = nanoseconds (Moment.tp ⟨e, t.clock⟩) :=
  accept_clock rfl rfl rfl

theorem nanoseconds_eq {n : Int} (h : Representable n) : nanoseconds n = n := by
  obtain ⟨hlo, hhi⟩ := h
  unfold nanoseconds
  rw [Int.bmod_def]
  split <;> omega

theorem weekdayOf_eq (h : YearMonthDay.Counted t.days) : (weekdayOf t : Int) = t.date.weekday :=
  YearMonthDay.weekday_eq h (by
    unfold Moment.days
    omega)

/-- The same month and day in the year that has been read, on the same day of the week. -/
theorem resolved_trialOf (hdays : YearMonthDay.Counted t.days) {Y y : Int} {e : Calendar.Date} :
    Resolved (trialOf t Y y zone) e ↔
      (resolveYear Y y = some e.year ∧ -32767 ≤ e.year ∧ e.year ≤ 32767) ∧
        e.month = t.date.month ∧ e.day = t.date.day ∧ e.weekday = t.date.weekday := by
  have hday := day_le t
  have hmonth := t.date.month_le
  have hlt := weekdayOf_lt t
  have hwd := weekdayOf_eq hdays
  constructor
  · intro h
    have hm : (t.date.month : Int) % 256 = e.month := h.month
    have hd : (t.date.day : Int) % 256 = e.day := h.day
    have hw : (weekdayOf t : Int) = e.weekday := h.weekday (by
      show (weekdayOf t : Int) ≠ 8
      omega)
    exact ⟨⟨h.year, h.year_ge, h.year_le⟩, by omega, by omega, hw.symm.trans hwd⟩
  · rintro ⟨⟨hyear, hge, hle⟩, hm, hd, hw⟩
    refine ⟨hyear, hge, hle, ?_, ?_, fun _ => hwd.trans hw.symm⟩
    · show (t.date.month : Int) % 256 = e.month
      omega
    · show (t.date.day : Int) % 256 = e.day
      omega

theorem resolveYear_four (Y : Int) : resolveYear Y not_a_2digit_year = some Y :=
  if_neg (fun h => h rfl)

/-- **The year itself** gives the date back. -/
theorem accept_year (hdays : YearMonthDay.Counted t.days) (hlo : 1677 ≤ t.date.year)
    (hhi : t.date.year ≤ 2262) (h : Representable t.tp) :
    accept (trialOf t t.date.year not_a_2digit_year zone) = some t.tp :=
  accept_trialOf.mpr ⟨t.date, (resolved_trialOf hdays).mpr
    ⟨⟨resolveYear_four _, by omega, by omega⟩, rfl, rfl, rfl⟩, (nanoseconds_eq h).symm⟩

/-- A text of RFC 1123 with the time of the point. -/
theorem fromString_textRFC_1123 (hdays : YearMonthDay.Counted t.days) (hlo : 1677 ≤ t.date.year)
    (hhi : t.date.year ≤ 2262) (h : Representable t.tp) (hclock : Spells ld clock t.clock)
    (hzone : Zone zone) : fromString ld (textRFC_1123 t clock zone) = .ok ⟨t.tp⟩ := by
  have hread := from_stream_read (loop_RFC_1123 hlo hhi hclock hzone) rfl
  rw [accept_year hdays hlo hhi h] at hread
  unfold fromString parse_RFC_1123
  rw [hread]

theorem fromString_textAsctime (hdays : YearMonthDay.Counted t.days) (hlo : 1677 ≤ t.date.year)
    (hhi : t.date.year ≤ 2262) (h : Representable t.tp) (hclock : Spells ld clock t.clock) :
    fromString ld (textAsctime t clock) = .ok ⟨t.tp⟩ := by
  have hread := from_stream_read (loop_asctime hlo hhi hclock) rfl
  rw [accept_year hdays hlo hhi h] at hread
  unfold fromString parse_RFC_1123 parse_RFC_850 parse_asctime
  have h1123 : from_stream ld RFC_1123 (textAsctime t clock) = none :=
    from_stream_fails (loop_comma_fails (.inl rfl) _ _)
  have hvariant : from_stream ld RFC_1123_variant (textAsctime t clock) = none :=
    from_stream_fails (loop_comma_fails (.inl rfl) _ _)
  have h850 : from_stream ld RFC_850 (textAsctime t clock) = none :=
    from_stream_fails (loop_comma_fails (.inr rfl) _ _)
  rw [h1123, hvariant, h850, hread]

/-- The text of RFC 850 is taken by the variant of RFC 1123 first, and then by its own format. -/
theorem fromString_textRFC_850 (hclock : Spells ld clock t.clock) (hzone : Zone zone) :
    fromString ld (textRFC_850 t clock zone) =
      (accept (trialOf t (t.date.year.toNat % 100 : Nat) not_a_2digit_year zone)).elim
        ((accept (trialOf t not_a_year (t.date.year.toNat % 100 : Nat) zone)).elim
          (.error (.std "Invalid Date format")) fun tp => .ok ⟨tp⟩) fun tp => .ok ⟨tp⟩ := by
  have h1123 : from_stream ld RFC_1123 (textRFC_850 t clock zone) = none :=
    from_stream_fails (loop_RFC_1123_fails clock zone)
  have hvariant : from_stream ld RFC_1123_variant (textRFC_850 t clock zone) = _ :=
    from_stream_read (loop_variant hclock hzone) rfl
  have h850 : from_stream ld RFC_850 (textRFC_850 t clock zone) = _ :=
    from_stream_read (loop_RFC_850 hclock hzone) rfl
  have hasctime : from_stream ld asctime (textRFC_850 t clock zone) = none :=
    from_stream_fails (loop_asctime_fails clock zone)
  have hepoch := parse_epoch_weekday t (44 :: 32 :: (decimal 2 t.date.day ++ 45 ::
    (monthText t ++ 45 :: (decimal 2 (t.date.year.toNat % 100) ++ 32 :: (clock ++ 32 :: zone)))))
  rw [← textRFC_850] at hepoch
  unfold fromString parse_RFC_1123 parse_RFC_850 parse_asctime
  rw [h1123, hvariant, h850, hasctime, hepoch]
  cases accept (trialOf t (t.date.year.toNat % 100 : Nat) not_a_2digit_year zone) with
  | some tp => rfl
  | none =>
    cases accept (trialOf t not_a_year (t.date.year.toNat % 100 : Nat) zone) with
    | some tp => rfl
    | none => rfl

/-! ## Other years -/

/-- **A year that whole centuries part from the one written**: the day of the week tells them
apart, unless the centuries are whole cycles of four. -/
theorem accept_centuries (zone : Bytes) (hdays : YearMonthDay.Counted t.days) {Y y Y' : Int}
    (k : Int) (hY : resolveYear Y y = some Y') (hk : Y' = t.date.year + 100 * k) (hlo : -32767 ≤ Y')
    (hhi : Y' ≤ 32767) :
    accept (trialOf t Y y zone) =
      if k % 4 = 0 then some (nanoseconds (t.tp + 146097 * (k / 4) * day)) else none := by
  by_cases hcycles : k % 4 = 0
  · have hyear : (t.date.cycles (k / 4)).year = Y' := by
      show t.date.year + 400 * (k / 4) = Y'
      omega
    have hweekday : (t.date.cycles (k / 4)).weekday = t.date.weekday :=
      (Calendar.Date.weekday_centuries (hyear.trans hk) rfl rfl).mpr hcycles
    have hord : (t.date.cycles (k / 4)).ordinal - 719163 =
        t.date.ordinal - 719163 + 146097 * (k / 4) := by
      rw [Calendar.Date.ordinal_cycles]
      omega
    rw [if_pos hcycles]
    refine accept_trialOf.mpr ⟨t.date.cycles (k / 4), (resolved_trialOf hdays).mpr
      ⟨⟨hY.trans (congrArg some hyear.symm), hyear.symm ▸ hlo, hyear.symm ▸ hhi⟩, rfl, rfl,
        hweekday⟩, ?_⟩
    unfold Moment.tp Moment.days
    rw [hord, Int.add_mul, Int.add_right_comm]
  · rw [if_neg hcycles, Option.eq_none_iff_forall_ne_some]
    intro n hn
    obtain ⟨e, he, -⟩ := accept_trialOf.mp hn
    obtain ⟨⟨hyear, -, -⟩, hm, hd, hw⟩ := (resolved_trialOf hdays).mp he
    rw [hY] at hyear
    injection hyear with hyear
    exact hcycles ((Calendar.Date.weekday_centuries (hyear.symm.trans hk) hm hd).mp hw)

end Reading

/-! ## There and back -/

section Trips

variable (ld : LongDouble)

/-- The point at the second towards 1970. -/
theorem representable_seconds {n : Int} (h : Representable n) :
    Representable (n.tdiv second * second) := by
  obtain ⟨hlo, hhi⟩ := h
  have hsec : (0 : Int) < second := by decide
  rcases Int.le_total 0 n with hpos | hneg
  · have hle := Int.ediv_mul_le n (Int.ne_of_gt hsec)
    have hnonneg := Int.ediv_nonneg hpos (Int.le_of_lt hsec)
    have hmul := Int.mul_nonneg hnonneg (Int.le_of_lt hsec)
    rw [Int.tdiv_eq_ediv_of_nonneg hpos]
    exact ⟨by omega, by omega⟩
  · have hpos : 0 ≤ -n := by omega
    have hle := Int.ediv_mul_le (-n) (Int.ne_of_gt hsec)
    have hnonneg := Int.ediv_nonneg hpos (Int.le_of_lt hsec)
    have hmul := Int.mul_nonneg hnonneg (Int.le_of_lt hsec)
    have htdiv : n.tdiv second = -(-n / second) := by
      rw [← Int.tdiv_eq_ediv_of_nonneg hpos, Int.neg_tdiv, Int.neg_neg]
    rw [htdiv, Int.neg_mul]
    exact ⟨by omega, by omega⟩

theorem fromString_RFC1123 {n : Int} (h : Representable n) :
    fromString ld (write ⟨n⟩ .RFC1123) = .ok ⟨n⟩ := by
  obtain ⟨t, rfl⟩ := exists_moment h
  obtain ⟨hdays, hlo, hhi⟩ := moment_range h
  rw [write, to_stream_RFC_1123 hdays hlo hhi]
  exact fromString_textRFC_1123 hdays hlo hhi h (spells_clockText ld t.clock) zone_UTC

theorem fromString_AscTime {n : Int} (h : Representable n) :
    fromString ld (write ⟨n⟩ .AscTime) = .ok ⟨n⟩ := by
  obtain ⟨t, rfl⟩ := exists_moment h
  obtain ⟨hdays, hlo, hhi⟩ := moment_range h
  rw [write, to_stream_asctime hdays hlo hhi]
  exact fromString_textAsctime hdays hlo hhi h (spells_clockText ld t.clock)

theorem fromString_RFC1123GMT {n : Int} (h : Representable n) :
    fromString ld (write ⟨n⟩ .RFC1123GMT) = .ok ⟨n.tdiv second * second⟩ := by
  have hsec := representable_seconds h
  obtain ⟨t, ht⟩ := exists_moment hsec
  obtain ⟨hdays, hlo, hhi⟩ := moment_range (ht ▸ hsec)
  have hns : t.clock.ns = 0 := by
    have hrem : t.tp % second = 0 := by
      rw [ht]
      exact Int.mul_emod_left _ _
    have := t.clock.ns_lt
    unfold Moment.tp Clock.toDuration day hour minute second at hrem
    omega
  rw [write, to_time_t, ← ht, Moment.fieldsOf_tp hdays, put_time_fields hlo hhi]
  exact fromString_textRFC_1123 hdays hlo hhi (ht ▸ hsec) (spells_secondsText ld hns) zone_GMT

/-- **The formats that give a date back**: two of them to the nanosecond, the one with `GMT` to
the second, towards 1970. -/
theorem fromString_write {n : Int} (h : Representable n) :
    fromString ld (write ⟨n⟩ .RFC1123) = .ok ⟨n⟩ ∧
      fromString ld (write ⟨n⟩ .AscTime) = .ok ⟨n⟩ ∧
      fromString ld (write ⟨n⟩ .RFC1123GMT) = .ok ⟨n.tdiv second * second⟩ :=
  ⟨fromString_RFC1123 ld h, fromString_AscTime ld h, fromString_RFC1123GMT ld h⟩

/-- Half a second before 1970. -/
theorem fromString_write_half :
    fromString .nearest (write ⟨-500000000⟩ .RFC1123) = .ok ⟨-500000000⟩ ∧
      fromString .nearest (write ⟨-500000000⟩ .AscTime) = .ok ⟨-500000000⟩ ∧
      fromString .nearest (write ⟨-500000000⟩ .RFC1123GMT) =
        .ok ⟨(-500000000 : Int).tdiv second * second⟩ :=
  fromString_write .nearest (by decide)

variable {t : Moment}

/-- The years that the format of RFC 850 stands for. -/
theorem resolveYear_two {yy : Nat} (hyy : yy < 100) :
    resolveYear not_a_year yy =
      some (if 69 ≤ yy then 1900 + (yy : Int) else 2000 + (yy : Int)) := by
  have htwo : (yy : Int) ≠ not_a_2digit_year := by unfold not_a_2digit_year; omega
  have hrange : ¬¬(0 ≤ (yy : Int) ∧ (yy : Int) ≤ 99) := by omega
  unfold resolveYear
  rw [if_pos htwo, if_neg hrange]
  dsimp only
  rw [if_pos rfl, if_neg (fun h => h.1 rfl)]
  by_cases h : 69 ≤ yy
  · rw [if_pos (show (yy : Int) ≥ 69 by omega), if_pos (by decide), if_pos h]
    rfl
  · rw [if_neg (show ¬(yy : Int) ≥ 69 by omega), if_pos (by decide), if_neg h]
    rfl

/-- The two digits as the year. -/
theorem accept_variant (h : Representable t.tp) (zone : Bytes) :
    accept (trialOf t (t.date.year.toNat % 100 : Nat) not_a_2digit_year zone) =
      if t.date.year / 100 % 4 = 0 then
        some (nanoseconds (t.tp - 146097 * (t.date.year / 400) * day))
      else none := by
  obtain ⟨hdays, hlo, hhi⟩ := moment_range h
  have hcentury : -(t.date.year / 100) % 4 = 0 ↔ t.date.year / 100 % 4 = 0 := by omega
  rw [accept_centuries zone hdays (-(t.date.year / 100)) (resolveYear_four _) (by omega) (by omega)
    (by omega)]
  by_cases hcycles : t.date.year / 100 % 4 = 0
  · have hk : -(t.date.year / 100) / 4 = -(t.date.year / 400) := by omega
    rw [if_pos hcycles, if_pos (hcentury.mpr hcycles), hk, Int.mul_neg, Int.neg_mul]
    rfl
  · rw [if_neg hcycles, if_neg (hcentury.not.mpr hcycles)]

/-- The two digits as a year from 1969 on. -/
theorem accept_two (h : Representable t.tp) (hcycles : ¬t.date.year / 100 % 4 = 0) (zone : Bytes) :
    accept (trialOf t not_a_year (t.date.year.toNat % 100 : Nat) zone) =
      if 1969 ≤ t.date.year ∧ t.date.year ≤ 1999 then some t.tp else none := by
  obtain ⟨hdays, hlo, hhi⟩ := moment_range h
  obtain ⟨yy, hyy⟩ : ∃ yy, yy = t.date.year.toNat % 100 := ⟨_, rfl⟩
  have hyy' : yy < 100 := by omega
  have hY := resolveYear_two hyy'
  rw [← hyy]
  by_cases hlate : 69 ≤ yy
  · rw [if_pos hlate] at hY
    rw [accept_centuries zone hdays (19 - t.date.year / 100) hY (by omega) (by omega) (by omega)]
    by_cases hback : 1969 ≤ t.date.year ∧ t.date.year ≤ 1999
    · have hk : 19 - t.date.year / 100 = 0 := by omega
      rw [if_pos hback, hk, if_pos (by decide), Int.zero_ediv, Int.mul_zero, Int.zero_mul,
        Int.add_zero, nanoseconds_eq h]
    · rw [if_neg hback, if_neg (by omega)]
  · rw [if_neg hlate] at hY
    rw [accept_centuries zone hdays (20 - t.date.year / 100) hY (by omega) (by omega) (by omega),
      if_neg (by omega), if_neg (by omega)]

theorem fromString_written (h : Representable t.tp) :
    fromString ld (write ⟨t.tp⟩ .RFC850) =
      (accept (trialOf t (t.date.year.toNat % 100 : Nat) not_a_2digit_year (lit "UTC"))).elim
        ((accept (trialOf t not_a_year (t.date.year.toNat % 100 : Nat) (lit "UTC"))).elim
          (.error (.std "Invalid Date format")) fun tp => .ok ⟨tp⟩) fun tp => .ok ⟨tp⟩ := by
  obtain ⟨hdays, hlo, hhi⟩ := moment_range h
  rw [write, to_stream_RFC_850 hdays hlo hhi]
  exact fromString_textRFC_850 (spells_clockText ld t.clock) zone_UTC

/-- Cycles of four centuries are no whole number of turns of the counter. -/
theorem nanoseconds_cycles {n q : Int} (hlo : 4 ≤ q) (hhi : q ≤ 5) :
    nanoseconds (n - 146097 * q * day) ≠ n := by
  intro h
  unfold nanoseconds day at h
  rw [Int.bmod_def] at h
  split at h <;> omega

theorem fromString_RFC850_eq (h : Representable t.tp) :
    fromString ld (write ⟨t.tp⟩ .RFC850) =
      if t.date.year / 100 % 4 = 0 then
        .ok ⟨nanoseconds (t.tp - 146097 * (t.date.year / 400) * day)⟩
      else if 1969 ≤ t.date.year ∧ t.date.year ≤ 1999 then .ok ⟨t.tp⟩
      else .error (.std "Invalid Date format") := by
  rw [fromString_written ld h, accept_variant h]
  by_cases hcycles : t.date.year / 100 % 4 = 0
  · rw [if_pos hcycles, if_pos hcycles, Option.elim_some]
  · rw [if_neg hcycles, if_neg hcycles, accept_two h hcycles, Option.elim_none]
    by_cases hback : 1969 ≤ t.date.year ∧ t.date.year ≤ 1999
    · rw [if_pos hback, if_pos hback, Option.elim_some]
    · rw [if_neg hback, if_neg hback, Option.elim_none]

/-- **What becomes of a date in the format of RFC 850**: it comes back from 1969 to 1999 only.  In
the centuries 16 and 20 the variant of RFC 1123 takes the two digits for the year, since the day
of the week is the same there, and another date comes back; in all other years the text is
refused. -/
theorem fromString_RFC850 (h : Representable t.tp) :
    (fromString ld (write ⟨t.tp⟩ .RFC850) = .ok ⟨t.tp⟩ ↔
        1969 ≤ t.date.year ∧ t.date.year ≤ 1999) ∧
      ((∃ date, fromString ld (write ⟨t.tp⟩ .RFC850) = .ok date ∧ date ≠ ⟨t.tp⟩) ↔
        t.date.year / 100 = 16 ∨ t.date.year / 100 = 20) := by
  obtain ⟨hdays, hlo, hhi⟩ := moment_range h
  rw [fromString_RFC850_eq ld h]
  by_cases hcycles : t.date.year / 100 % 4 = 0
  · have hne := nanoseconds_cycles (n := t.tp) (q := t.date.year / 400) (by omega) (by omega)
    rw [if_pos hcycles]
    refine ⟨iff_of_false ?_ (by omega), iff_of_true ⟨_, rfl, ?_⟩ (by omega)⟩
    · intro heq
      injection heq with heq
      injection heq with heq
      exact hne heq
    · intro heq
      injection heq with heq
      exact hne heq
  · rw [if_neg hcycles]
    by_cases hback : 1969 ≤ t.date.year ∧ t.date.year ≤ 1999
    · rw [if_pos hback]
      refine ⟨iff_of_true rfl hback, iff_of_false ?_ (by omega)⟩
      rintro ⟨date, heq, hne⟩
      injection heq with heq
      exact hne heq.symm
    · rw [if_neg hback]
      refine ⟨iff_of_false ?_ hback, iff_of_false ?_ (by omega)⟩
      · intro heq
        cases heq
      · rintro ⟨date, heq, -⟩
        cases heq

/-- The beginning of the year 2000. -/
def newYear : Moment :=
  ⟨⟨2000, 1, 1, Nat.one_pos, by decide, Nat.one_pos, by decide⟩,
    ⟨0, 0, 0, 0, by decide, by decide, by decide, by decide⟩⟩

theorem fromString_RFC850_newYear :
    (fromString .nearest (write ⟨newYear.tp⟩ .RFC850) = .ok ⟨newYear.tp⟩ ↔
        1969 ≤ newYear.date.year ∧ newYear.date.year ≤ 1999) ∧
      ((∃ date, fromString .nearest (write ⟨newYear.tp⟩ .RFC850) = .ok date ∧
          date ≠ ⟨newYear.tp⟩) ↔
        newYear.date.year / 100 = 16 ∨ newYear.date.year / 100 = 20) :=
  fromString_RFC850 .nearest (t := newYear) (by decide)

end Trips

/-! ## All that is read -/

section Accepted

variable {ld : LongDouble} {fmt : List Directive} {trial : Trial} {is : Istream}

/-- Only the name of the day sets the day of the week. -/
theorem read_wd {dir : Directive} (ha : dir ≠ .a) (hA : dir ≠ .A) :
    (dir.read ld trial is).1.wd = trial.wd := by
  cases dir with
  | a => exact absurd rfl ha
  | A => exact absurd rfl hA
  | b =>
    unfold Directive.read
    dsimp only
    split <;> rfl
  | T =>
    unfold Directive.read
    dsimp only
    split <;> rfl
  | d => rfl
  | Y => rfl
  | y => rfl
  | Z => rfl
  | text c => rfl

theorem loop_wd : ∀ (fmt : List Directive) (trial : Trial) (is : Istream),
    (∀ dir ∈ fmt, dir ≠ .a ∧ dir ≠ .A) → (from_streamLoop ld fmt trial is).1.wd = trial.wd
  | [], _, _, _ => rfl
  | dir :: fmt, trial, is, h => by
    unfold from_streamLoop
    split
    · rfl
    · have hdir := h dir List.mem_cons_self
      rw [loop_wd fmt _ _ fun e he => h e (List.mem_cons_of_mem _ he)]
      exact read_wd hdir.1 hdir.2

/-- A name of the day of the week at the beginning of a text, in full or abbreviated. -/
def BeginsWithDay (text : Bytes) (wd : Int) : Prop :=
  ∃ name rest ky, text = name ++ rest ∧ upper ky = upper name ∧
    (weekday_names[wd.toNat]? = some ky ∨ weekday_names[wd.toNat + 7]? = some ky)

/-- A text whose first directive has read a name of the day. -/
theorem read_day {dir : Directive} {text : Bytes} (hdir : dir = .a ∨ dir = .A)
    (hgood : (dir.read ld .initial (ofText text)).2.failbit = false) :
    ∃ i ky consumed rest, (dir.read ld .initial (ofText text)).1.wd = (i % 7 : Nat) ∧
      text = consumed ++ rest ∧ weekday_names[i]? = some ky ∧ upper ky = upper consumed := by
  have hread : dir.read ld .initial (ofText text) = Directive.a.read ld .initial (ofText text) := by
    rcases hdir with rfl | rfl <;> rfl
  rw [hread] at hgood ⊢
  cases hscan : scan_keyword weekday_names (ofText text) with
  | mk found is =>
    cases found with
    | none =>
      simp only [Directive.read, hscan] at hgood
      exact absurd (scan_keyword_none hscan) (by rw [hgood]; exact Bool.false_ne_true)
    | some i =>
      obtain ⟨consumed, ky, hsplit, hky, hupper⟩ := scan_keyword_some hscan
      simp only [Directive.read, hscan] at hgood ⊢
      exact ⟨i, ky, consumed, _, checked_set_value hgood, hsplit, hky, hupper⟩

theorem from_stream_date {dir : Directive} {text : Bytes} {n : Int} (hdir : dir = .a ∨ dir = .A)
    (hfmt : ∀ e ∈ fmt, e ≠ Directive.a ∧ e ≠ Directive.A)
    (h : from_stream ld (dir :: fmt) text = some n) :
    ∃ (e : Calendar.Date) (tod : HhMmSs), tod.in_conventional_range = true ∧
      BeginsWithDay text e.weekday ∧
      n = nanoseconds ((e.ordinal - 719163) * day + tod.to_duration) := by
  unfold from_stream at h
  split at h
  · cases h
  · rename_i hfail
    obtain ⟨e, he, htod, hn⟩ := accept_iff.mp h
    refine ⟨e, _, htod, ?_, hn⟩
    have hwd := he.weekday
    rw [loop_step] at hfail hwd
    rw [loop_wd fmt _ _ hfmt] at hwd
    have hgood : (dir.read ld .initial (ofText text)).2.failbit = false := by
      rw [Bool.eq_false_iff]
      intro hbad
      exact hfail (by rw [loop_failbit hbad]; exact hbad)
    obtain ⟨i, ky, consumed, rest, hi, hsplit, hky, hupper⟩ := read_day hdir hgood
    have hlt : i < 14 := (List.getElem?_eq_some_iff.mp hky).1
    rw [hi] at hwd
    have hweekday := hwd (by unfold not_a_weekday; omega)
    refine ⟨consumed, rest, ky, hsplit, hupper, ?_⟩
    rcases Nat.lt_or_ge i 7 with hfull | habbrev
    · have hindex : e.weekday.toNat = i := by omega
      exact .inl (by rw [hindex]; exact hky)
    · have hindex : e.weekday.toNat + 7 = i := by omega
      exact .inr (by rw [hindex]; exact hky)

theorem parse_epoch_some {str : Bytes} {n : Int} (h : parse_epoch str = .ok (some n)) :
    ∃ v, stoull str = .ok v ∧ (∀ c ∈ str, isdigit c = true) ∧
      n = nanoseconds (v.toNat * second) := by
  unfold parse_epoch at h
  split at h
  · injection h with h
    cases h
  · rename_i hdigits
    rw [List.any_eq_true] at hdigits
    split at h
    · rename_i v hv
      injection h with h
      injection h with h
      refine ⟨v, hv, fun c hc => ?_, h.symm⟩
      by_cases hdigit : isdigit c = true
      · exact hdigit
      · exact absurd ⟨c, hc, by simp [hdigit]⟩ hdigits
    · injection h with h
      cases h
    · cases h

/-- What `fromString` gives has been read as a count of seconds, or under a format that begins with
the day of the week. -/
theorem fromString_cases {str : Bytes} {date : FullDate} (h : fromString ld str = .ok date) :
    (∃ v, stoull str = .ok v ∧ (∀ c ∈ str, isdigit c = true) ∧
        date = ⟨nanoseconds (v.toNat * second)⟩) ∨
      ∃ dir fmt n, (dir = Directive.a ∨ dir = Directive.A) ∧
        (∀ e ∈ fmt, e ≠ Directive.a ∧ e ≠ Directive.A) ∧
        from_stream ld (dir :: fmt) str = some n ∧ date = ⟨n⟩ := by
  unfold fromString at h
  split at h
  · rename_i tp h1123
    injection h with h
    unfold parse_RFC_1123 at h1123
    split at h1123
    · rename_i tp' hread
      injection h1123 with h1123
      exact .inr ⟨_, _, _, .inl rfl, by decide, hread, by rw [← h, h1123]⟩
    · exact .inr ⟨_, _, _, .inl rfl, by decide, h1123, h.symm⟩
  · split at h
    · rename_i tp h850
      injection h with h
      exact .inr ⟨_, _, _, .inr rfl, by decide, h850, h.symm⟩
    · split at h
      · rename_i tp hasctime
        injection h with h
        exact .inr ⟨_, _, _, .inl rfl, by decide, hasctime, h.symm⟩
      · split at h
        · rename_i tp hepoch
          injection h with h
          obtain ⟨v, hv, hdigits, htp⟩ := parse_epoch_some hepoch
          exact .inl ⟨v, hv, hdigits, by rw [← h, htp]⟩
        · cases h
        · cases h

/-- **What is read** is a count of seconds, or a date of the calendar on the day of the week with
which the text begins. -/
theorem fromString_date {str : Bytes} {date : FullDate} (h : fromString ld str = .ok date) :
    (∃ v, stoull str = .ok v ∧ (∀ c ∈ str, isdigit c = true) ∧
        date = ⟨nanoseconds (v.toNat * second)⟩) ∨
      ∃ (e : Calendar.Date) (tod : HhMmSs), tod.in_conventional_range = true ∧
        BeginsWithDay str e.weekday ∧
        date = ⟨nanoseconds ((e.ordinal - 719163) * day + tod.to_duration)⟩ := by
  rcases fromString_cases h with hepoch | ⟨dir, fmt, n, hdir, hfmt, hread, rfl⟩
  · exact .inl hepoch
  · obtain ⟨e, tod, htod, hday, rfl⟩ := from_stream_date hdir hfmt hread
    exact .inr ⟨e, tod, htod, hday, rfl⟩

/-- The date of a cookie in the variant of RFC 1123. -/
theorem fromString_cookie :
    (∃ v, stoull (lit "Mon, 26-May-2025 18:38:48 GMT") = .ok v ∧
        (∀ c ∈ lit "Mon, 26-May-2025 18:38:48 GMT", isdigit c = true) ∧
        (⟨1748284728000000000⟩ : FullDate) = ⟨nanoseconds (v.toNat * second)⟩) ∨
      ∃ (e : Calendar.Date) (tod : HhMmSs), tod.in_conventional_range = true ∧
        BeginsWithDay (lit "Mon, 26-May-2025 18:38:48 GMT") e.weekday ∧
        (⟨1748284728000000000⟩ : FullDate) =
          ⟨nanoseconds ((e.ordinal - 719163) * day + tod.to_duration)⟩ :=
  fromString_date (show fromString .nearest (lit "Mon, 26-May-2025 18:38:48 GMT") = _ by
    decide)

end Accepted

end FullDate

end Pistache.Http
