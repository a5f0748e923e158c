import Mathlib.Data.List.TakeWhile
import Groundwork.Proofs.Decimal.Digits
import Groundwork.Time.Instant

/-!
# Instants, read back

An instant is written part by part, each part with a fixed number of digits but the year, and read part by part.
What is read back is the same instant, if its year is one that can be read at all, and its nanoseconds reach
beyond a second only within the last second of a minute.

A day is turned into a date by dividing: by the days of an era of 400 years, of a century, of four years and of
one, and by the days of five months.  The divisions for the year overlap, since some years have a day more; that
the quotient is the year all the same is shown century by century.

Main statements: the date of a day is one of the calendar (`dateOfDays_spec`), and instants are read back
(`parse?_render`).
-/

namespace Groundwork.Instant

/-! ### The calendar -/

/-- The years of an era, by its days. -/
theorem yearOfEra_bounds {dayOfEra : Int} (low : 0 ≤ dayOfEra) (high : dayOfEra < 146097) :
    0 ≤ (dayOfEra - dayOfEra / 1460 + dayOfEra / 36524 - dayOfEra / 146096) / 365 ∧
      (dayOfEra - dayOfEra / 1460 + dayOfEra / 36524 - dayOfEra / 146096) / 365 < 400 := by
  omega

/-- The days of a year, within one century: the last one of 366 only if a leap day precedes it. -/
theorem dayOfYear_of_century {dayOfEra century : Int}
    (hcentury : century = 0 ∨ century = 1 ∨ century = 2 ∨ century = 3)
    (low : 36524 * century ≤ dayOfEra) (high : dayOfEra < 36524 * century + 36524) {yearOfEra : Int}
    (hyear : yearOfEra = (dayOfEra - dayOfEra / 1460 + century) / 365) :
    0 ≤ dayOfEra - (365 * yearOfEra + yearOfEra / 4 - yearOfEra / 100) ∧
      dayOfEra - (365 * yearOfEra + yearOfEra / 4 - yearOfEra / 100) ≤ 365 ∧
      (dayOfEra - (365 * yearOfEra + yearOfEra / 4 - yearOfEra / 100) = 365 →
        yearOfEra % 4 = 3 ∧ yearOfEra % 100 ≠ 99) := by
  -- the year lies close to four times the number of full cycles of four years
  have hnear : 4 * (dayOfEra / 1460) - 1 ≤ yearOfEra ∧ yearOfEra ≤ 4 * (dayOfEra / 1460) + 3 := by omega
  have hsame : yearOfEra / 100 = century := by omega
  rcases hcentury with rfl | rfl | rfl | rfl <;> omega

theorem dayOfYear_bounds {dayOfEra : Int} (low : 0 ≤ dayOfEra) (high : dayOfEra < 146097) {yearOfEra : Int}
    (hyear : yearOfEra = (dayOfEra - dayOfEra / 1460 + dayOfEra / 36524 - dayOfEra / 146096) / 365) :
    0 ≤ dayOfEra - (365 * yearOfEra + yearOfEra / 4 - yearOfEra / 100) ∧
      dayOfEra - (365 * yearOfEra + yearOfEra / 4 - yearOfEra / 100) ≤ 365 ∧
      (dayOfEra - (365 * yearOfEra + yearOfEra / 4 - yearOfEra / 100) = 365 →
        yearOfEra % 4 = 3 ∧ (yearOfEra % 100 ≠ 99 ∨ yearOfEra = 399)) := by
  by_cases hlast : dayOfEra = 146096
  · have hyear' : yearOfEra = 399 := by subst hlast; omega
    subst hlast hyear'
    decide
  · have hzero : dayOfEra / 146096 = 0 := by omega
    rw [hzero, Int.sub_zero] at hyear
    have hcentury : dayOfEra / 36524 = 0 ∨ dayOfEra / 36524 = 1 ∨ dayOfEra / 36524 = 2 ∨ dayOfEra / 36524 = 3 := by
      omega
    have hall := dayOfYear_of_century hcentury (by omega) (by omega) hyear
    exact ⟨hall.1, hall.2.1, fun h => ⟨(hall.2.2 h).1, .inl (hall.2.2 h).2⟩⟩

/-- A date is one: its month is one of twelve, and its day one of the month. -/
structure IsDate (year : Int) (month day : Nat) : Prop where
  month_pos : 1 ≤ month
  month_le : month ≤ 12
  day_pos : 1 ≤ day
  day_le : day ≤ daysInMonth year month

theorem isLeap_iff {year : Int} :
    isLeap year = true ↔ year % 4 = 0 ∧ (year % 100 ≠ 0 ∨ year % 400 = 0) := by
  simp [isLeap, Int.fmod_eq_emod_of_nonneg]

theorem daysInMonth_of_ne_two {year : Int} {month : Nat} (h : month ≠ 2) :
    daysInMonth year month = if month = 4 ∨ month = 6 ∨ month = 9 ∨ month = 11 then 30 else 31 := by
  simp [daysInMonth, h]

theorem twentyEight_le_daysInMonth (year : Int) (month : Nat) : 28 ≤ daysInMonth year month := by
  unfold daysInMonth
  repeat' split
  all_goals decide

theorem daysInMonth_le (year : Int) (month : Nat) : daysInMonth year month ≤ 31 := by
  unfold daysInMonth
  repeat' split
  all_goals decide

/-- The month and the day of a day of a year that begins in March. -/
theorem month_bounds {dayOfYear : Int} (low : 0 ≤ dayOfYear) (high : dayOfYear ≤ 365) {shifted day month : Int}
    (hshifted : shifted = (5 * dayOfYear + 2) / 153) (hday : day = dayOfYear - (153 * shifted + 2) / 5 + 1)
    (hmonth : month = if shifted < 10 then shifted + 3 else shifted - 9) :
    0 ≤ shifted ∧ shifted ≤ 11 ∧ 1 ≤ month ∧ month ≤ 12 ∧ 1 ≤ day ∧ day ≤ 31 ∧
      (month = 2 → day ≤ 29 ∧ (day = 29 → dayOfYear = 365)) ∧
      (month = 4 ∨ month = 6 ∨ month = 9 ∨ month = 11 → day ≤ 30) := by
  subst hshifted hday
  split at hmonth <;> omega

/-- **The calendar is right**: the date of a day is a date, and the day of that date is the day. -/
theorem dateOfDays_spec (days : Int) :
    IsDate (dateOfDays days).1 (dateOfDays days).2.1 (dateOfDays days).2.2 ∧
      daysOfDate (dateOfDays days).1 (dateOfDays days).2.1 (dateOfDays days).2.2 = days := by
  simp only [dateOfDays, Int.fdiv_eq_ediv_of_nonneg _ (by decide : (0 : Int) ≤ 146097)]
  generalize hera : (days + 719468) / 146097 = era
  generalize hdoe : days + 719468 - era * 146097 = doe
  have hdoe_low : 0 ≤ doe := by omega
  have hdoe_high : doe < 146097 := by omega
  have hyears := yearOfEra_bounds hdoe_low hdoe_high
  generalize hyoe : (doe - doe / 1460 + doe / 36524 - doe / 146096) / 365 = yoe at *
  obtain ⟨hdoy_low, hdoy_high, hleap⟩ := dayOfYear_bounds hdoe_low hdoe_high hyoe.symm
  generalize hdoy : doe - (365 * yoe + yoe / 4 - yoe / 100) = doy at *
  generalize hshifted : (5 * doy + 2) / 153 = shifted
  generalize hday : doy - (153 * shifted + 2) / 5 + 1 = day
  generalize hmonth : (if shifted < 10 then shifted + 3 else shifted - 9) = month
  obtain ⟨hs_low, hs_high, hm_low, hm_high, hd_low, hd_high, hfeb, hshort⟩ :=
    month_bounds hdoy_low hdoy_high hshifted.symm hday.symm hmonth.symm
  obtain ⟨m, rfl⟩ := Int.eq_ofNat_of_zero_le (by omega : 0 ≤ month)
  obtain ⟨d, rfl⟩ := Int.eq_ofNat_of_zero_le (by omega : 0 ≤ day)
  simp only [Int.toNat_natCast]
  refine ⟨⟨by omega, by omega, by omega, ?_⟩, ?_⟩
  · by_cases hm : m = 2
    · subst hm
      have hfeb' := hfeb rfl
      by_cases hd : d = 29
      · have hl := hleap (hfeb'.2 (by omega))
        have hyear : isLeap (yoe + era * 400 + 1) = true := isLeap_iff.2 (by omega)
        simp [daysInMonth, hyear, hd]
      · exact Nat.le_trans (by omega) (twentyEight_le_daysInMonth _ 2)
    · rw [daysInMonth_of_ne_two hm]
      split <;> omega
  · simp only [daysOfDate, Int.fdiv_eq_ediv_of_nonneg _ (by decide : (0 : Int) ≤ 400)]
    have hyear : (if m ≤ 2 then yoe + era * 400 + (if (m : Int) ≤ 2 then 1 else 0) - 1
        else yoe + era * 400 + (if (m : Int) ≤ 2 then 1 else 0)) = yoe + era * 400 := by
      split <;> split <;> omega
    have hback : (if 2 < m then (m : Int) - 3 else (m : Int) + 9) = shifted := by
      split <;> split at hmonth <;> omega
    have hera' : (yoe + era * 400) / 400 = era := by omega
    have hyoe' : yoe + era * 400 - era * 400 = yoe := by omega
    rw [hyear, hback, hera', hyoe']
    clear hyear hback hera' hyoe'
    omega

/-! ### Instants that can be written -/

/-- The year of an instant. -/
def year (t : Instant) : Int := (dateOfDays (t.seconds.fdiv 86400)).1

/-- Whether an instant is one that a text can spell. -/
structure Writable (t : Instant) : Prop where
  year_low : -262143 ≤ t.year
  year_high : t.year ≤ 262142
  nanos : t.nanos < 1000000000 ∨ t.seconds % 60 = 59 ∧ t.nanos < 2000000000

instance (t : Instant) : Decidable t.Writable :=
  decidable_of_iff (-262143 ≤ t.year ∧ t.year ≤ 262142 ∧
    (t.nanos < 1000000000 ∨ t.seconds % 60 = 59 ∧ t.nanos < 2000000000))
    ⟨fun h => ⟨h.1, h.2.1, h.2.2⟩, fun h => ⟨h.1, h.2, h.3⟩⟩

/-! ### Parts -/

theorem isBlank_of_isDigit {c : Char} (h : c.isDigit = true) : Text.isBlank c = false := by
  have hrange : 48 ≤ c.toNat ∧ c.toNat ≤ 57 := Char.isDigit_iff_toNat.1 h
  simp only [Text.isBlank, Bool.or_eq_false_iff, Bool.and_eq_false_iff, decide_eq_false_iff_not]
  omega

/-- Digits up to a width, and no further digit if there is room for one. -/
theorem takeNumber_append {width : Nat} {ds rest : List Char} (hds : ∀ c ∈ ds, c.isDigit = true) (hne : ds ≠ [])
    (hlength : ds.length ≤ width) (hend : ds.length = width ∨ ∀ c, rest.head? = some c → c.isDigit = false) :
    takeNumber width (ds ++ rest) = some (Decimal.digitsValue ds, rest) := by
  have hblank : Text.trimStart (ds ++ rest) = ds ++ rest := by
    refine Text.trimStart_eq_self fun c hc => ?_
    obtain ⟨d, ds, rfl⟩ := List.exists_cons_of_ne_nil hne
    obtain rfl : d = c := Option.some.inj hc
    exact isBlank_of_isDigit (hds d List.mem_cons_self)
  have hdigits : ((ds ++ rest).take width).takeWhile Char.isDigit = ds := by
    rw [List.take_append, List.take_of_length_le hlength, List.takeWhile_append_of_pos hds]
    suffices h : (rest.take (width - ds.length)).takeWhile Char.isDigit = [] by rw [h, List.append_nil]
    rcases hend with hend | hend
    · simp [hend]
    · cases rest with
      | nil => simp
      | cons c rest =>
        cases width - ds.length with
        | zero => rfl
        | succ k => simp [hend c rfl]
  simp [takeNumber, hblank, hdigits, hne]

theorem takeNumber_padded {width n : Nat} (hwidth : 0 < width) (h : n < 10 ^ width) (rest : List Char) :
    takeNumber width (padded width n ++ rest) = some (n, rest) := by
  have hlength := Decimal.length_padded hwidth h
  rw [takeNumber_append (fun c => Decimal.isDigit_of_mem_padded) (Decimal.padded_ne_nil width n)
    (Nat.le_of_eq hlength) (.inl hlength), Decimal.digitsValue_padded]

theorem takeMark_cons {mark : Char} (h : Text.isBlank mark = false) (rest : List Char) :
    takeMark mark (mark :: rest) = some rest := by
  have hblank : Text.trimStart (mark :: rest) = mark :: rest :=
    Text.trimStart_eq_self fun c hc => by cases hc; exact h
  simp [takeMark, hblank]

/-! ### Years -/

/-- A year without a sign is read as a number of four digits. -/
theorem takeYear_of_isDigit {ds rest : List Char} (hds : ∀ c ∈ ds, c.isDigit = true) (hne : ds ≠ []) :
    takeYear (ds ++ rest) = (takeNumber 4 (ds ++ rest)).map fun p => ((p.1 : Int), p.2) := by
  obtain ⟨d, ds, rfl⟩ := List.exists_cons_of_ne_nil hne
  have hd := hds d List.mem_cons_self
  have hblank : Text.trimStart (d :: ds ++ rest) = d :: ds ++ rest :=
    Text.trimStart_eq_self fun c hc => by
      obtain rfl : d = c := Option.some.inj hc
      exact isBlank_of_isDigit hd
  unfold takeYear
  rw [hblank]
  split
  · rename_i heq
    obtain ⟨rfl, -⟩ := List.cons.inj heq
    cases hd
  · rename_i heq
    obtain ⟨rfl, -⟩ := List.cons.inj heq
    cases hd
  · rfl

/-- A year behind a sign is read to its last digit. -/
theorem takeNumber_year (width n : Nat) (rest : List Char) :
    takeNumber (padded width n ++ '-' :: rest).length (padded width n ++ '-' :: rest) = some (n, '-' :: rest) := by
  rw [takeNumber_append (fun c => Decimal.isDigit_of_mem_padded) (Decimal.padded_ne_nil width n) (by simp)
    (.inr fun c hc => by cases hc; rfl), Decimal.digitsValue_padded]

theorem any_isDigit_padded (width n : Nat) (rest : List Char) :
    (padded width n ++ rest).head?.any Char.isDigit = true := by
  obtain ⟨d, ds, hds⟩ := List.exists_cons_of_ne_nil (Decimal.padded_ne_nil width n)
  have hd : d.isDigit = true := Decimal.isDigit_of_mem_padded (hds ▸ List.mem_cons_self)
  simp [hds, hd]

/-- **A year is read back.** -/
theorem takeYear_yearText (y : Int) (rest : List Char) :
    takeYear (yearText y ++ '-' :: rest) = some (y, '-' :: rest) := by
  by_cases hplain : 0 ≤ y ∧ y ≤ 9999
  · have hy : y.toNat < 10 ^ 4 := by omega
    rw [yearText, if_pos hplain, takeYear_of_isDigit (fun c => Decimal.isDigit_of_mem_padded)
      (Decimal.padded_ne_nil _ _), takeNumber_padded (by decide) hy]
    simp only [Option.map_some, Int.toNat_of_nonneg hplain.1]
  · rw [yearText, if_neg hplain]
    have hblank : ∀ (c : Char) cs, Text.isBlank c = false → Text.trimStart (c :: cs) = c :: cs :=
      fun c cs hc => Text.trimStart_eq_self fun d hd => by cases hd; exact hc
    by_cases hneg : y < 0
    · simp only [hneg, if_true, List.cons_append, takeYear, hblank '-' _ (by decide), any_isDigit_padded,
        takeNumber_year, Option.map_some]
      congr 2
      omega
    · simp only [hneg, if_false, List.cons_append, takeYear, hblank '+' _ (by decide), any_isDigit_padded,
        takeNumber_year, Option.map_some, if_true]
      congr 2
      omega

/-! ### Fractions of a second -/

theorem takeFraction_padded {width n : Nat} (hwidth : 0 < width) (hnine : width ≤ 9) (h : n < 10 ^ width) :
    takeFraction ('.' :: padded width n ++ ['Z']) = some (n * 10 ^ (9 - width), ['Z']) := by
  have hdigits : (padded width n ++ ['Z']).takeWhile Char.isDigit = padded width n := by
    rw [List.takeWhile_append_of_pos fun c => Decimal.isDigit_of_mem_padded]
    simp
  have hlength := Decimal.length_padded hwidth h
  have htake : (padded width n).take 9 = padded width n := List.take_of_length_le (by omega)
  simp [takeFraction, hdigits, htake, hlength, Decimal.padded_ne_nil]

/-- **The fraction of a second is read back.** -/
theorem takeFraction_fractionText {n : Nat} (h : n < 1000000000) :
    takeFraction (fractionText n ++ ['Z']) = some (n, ['Z']) := by
  unfold fractionText
  split
  · subst n; rfl
  split
  · rw [takeFraction_padded (by decide) (by decide) (by omega)]
    congr 2
    omega
  split
  · rw [takeFraction_padded (by decide) (by decide) (by omega)]
    congr 2
    omega
  · rw [takeFraction_padded (by decide) (by decide) (by omega)]
    simp

/-! ### Instants -/

/-- The seconds of an instant, by day and time of day. -/
theorem seconds_eq (t : Instant) :
    t.seconds = t.seconds.fdiv 86400 * 86400 + ((t.seconds.fmod 86400).toNat : Int) ∧
      (t.seconds.fmod 86400).toNat < 86400 := by
  rw [Int.fdiv_eq_ediv_of_nonneg _ (by decide), Int.fmod_eq_emod_of_nonneg _ (by decide)]
  omega

/-- **An instant is read back.** -/
theorem parse?_render {t : Instant} (h : t.Writable) : parse? t.render = some t := by
  obtain ⟨hseconds, hday⟩ := seconds_eq t
  obtain ⟨hdate, hback⟩ := dateOfDays_spec (t.seconds.fdiv 86400)
  obtain ⟨hlow, hhigh, hnanos⟩ := h
  have hmonth := hdate.month_le
  have hdays := hdate.day_le
  simp only [year] at hlow hhigh
  generalize hdateOf : dateOfDays (t.seconds.fdiv 86400) = date at hdate hback hlow hhigh hmonth hdays
  obtain ⟨y, m, d⟩ := date
  generalize hs : (t.seconds.fmod 86400).toNat = s at hseconds hday
  have hsplit : t.render.toList = yearText y ++ '-' :: (padded 2 m ++ '-' :: (padded 2 d ++ 'T' ::
      (padded 2 (s / 3600) ++ ':' :: (padded 2 (s / 60 % 60) ++ ':' ::
        (padded 2 (s % 60 + t.nanos / 1000000000) ++ (fractionText (t.nanos % 1000000000) ++ ['Z'])))))) := by
    simp [render, renderWith, dateText, clockText, hdateOf, hs]
  have hend : takeOffset (Text.trimStart ['Z']) = some (0, []) := by decide
  simp only at hback hmonth hdays hlow hhigh
  have hthirtyOne := daysInMonth_le y m
  have hsecond : s % 60 + t.nanos / 1000000000 ≤ 60 := by omega
  simp only [parse?, hsplit, takeYear_yearText, bind, Option.bind, takeMark_cons (by decide : Text.isBlank '-' = false),
    takeMark_cons (by decide : Text.isBlank ':' = false), true_or, if_true,
    takeNumber_padded (by decide : 0 < 2) (by omega : m < 10 ^ 2),
    takeNumber_padded (by decide : 0 < 2) (by omega : d < 10 ^ 2),
    takeNumber_padded (by decide : 0 < 2) (by omega : s / 3600 < 10 ^ 2),
    takeNumber_padded (by decide : 0 < 2) (by omega : s / 60 % 60 < 10 ^ 2),
    takeNumber_padded (by decide : 0 < 2) (by omega : s % 60 + t.nanos / 1000000000 < 10 ^ 2),
    takeFraction_fractionText (Nat.mod_lt t.nanos (by decide : 1000000000 > 0)), hend]
  have htest : ((Text.trimStart []).isEmpty && 1 ≤ m && m ≤ 12 && 1 ≤ d && d ≤ daysInMonth y m && s / 3600 < 24
      && s / 60 % 60 < 60 && s % 60 + t.nanos / 1000000000 ≤ 60 && -262143 ≤ y && y ≤ 262142) = true := by
    have hmonthPos : 1 ≤ m := hdate.month_pos
    have hdayPos : 1 ≤ d := hdate.day_pos
    simp only [Bool.and_eq_true, decide_eq_true_eq]
    exact ⟨⟨⟨⟨⟨⟨⟨⟨⟨rfl, hmonthPos⟩, hmonth⟩, hdayPos⟩, hdays⟩, by omega⟩, by omega⟩, hsecond⟩, hlow⟩, hhigh⟩
  rw [if_pos htest, hback]
  -- the sixtieth second and the nanoseconds beyond the last one stand for each other
  obtain ⟨seconds, nanos⟩ := t
  simp only at hseconds hsecond hnanos ⊢
  by_cases hleap : s % 60 + nanos / 1000000000 = 60
  · simp only [hleap, if_true, Option.some.injEq, Instant.mk.injEq]
    omega
  · simp only [hleap, if_false, Option.some.injEq, Instant.mk.injEq]
    omega

end Groundwork.Instant
