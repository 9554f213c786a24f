import Mathlib.Tactic.IntervalCases
import Mathlib.Tactic.Linarith

/-!
# The proleptic Gregorian calendar

A date has a month of the year and a day of that month. Its number counts the days from 1970-01-01
by the lengths of the years and months before it, so each number belongs to one date. Counting from
a first of March, 400 years of 146097 days repeat, and the year in such an era is found by one
division once the leap days before it are taken off.
-/
namespace DbtNova.CivilCalendar

def IsLeapYear (year : ℤ) : Prop := year % 4 = 0 ∧ (year % 100 ≠ 0 ∨ year % 400 = 0)

instance (year : ℤ) : Decidable (IsLeapYear year) := inferInstanceAs (Decidable (_ ∧ _))

def yearLength (year : ℤ) : ℤ := if IsLeapYear year then 366 else 365

def daysInMonth (year month : ℤ) : ℤ :=
  if month = 2 then if IsLeapYear year then 29 else 28
  else if month = 4 ∨ month = 6 ∨ month = 9 ∨ month = 11 then 30
  else 31

/-- The days from 0001-01-01 to the first day of a year. -/
def daysBeforeYear (year : ℤ) : ℤ :=
  365 * (year - 1) + (year - 1) / 4 - (year - 1) / 100 + (year - 1) / 400

/-- The days of the first months of a year. -/
def daysOfMonths (year : ℤ) : ℕ → ℤ
  | 0 => 0
  | months + 1 => daysOfMonths year months + daysInMonth year (months + 1)

structure CivilDate where
  year : ℤ
  month : ℤ
  day : ℤ
  month_pos : 1 ≤ month
  month_le : month ≤ 12
  day_pos : 1 ≤ day
  day_le : day ≤ daysInMonth year month

/-- The number of days from 1970-01-01. -/
def CivilDate.dayNumber (date : CivilDate) : ℤ :=
  daysBeforeYear date.year - daysBeforeYear 1970 +
    daysOfMonths date.year (date.month.toNat - 1) + date.day - 1

/-! ### Each number belongs to one date -/

section Unique
variable {year : ℤ} {m n : ℕ}

theorem daysBeforeYear_succ (year : ℤ) :
    daysBeforeYear (year + 1) = daysBeforeYear year + yearLength year := by
  by_cases h : IsLeapYear year
  · rw [yearLength, if_pos h]
    unfold IsLeapYear at h
    unfold daysBeforeYear
    omega
  · rw [yearLength, if_neg h]
    unfold IsLeapYear at h
    unfold daysBeforeYear
    omega

theorem daysBeforeYear_add_le {a b : ℤ} (h : a < b) :
    daysBeforeYear a + yearLength a ≤ daysBeforeYear b := by
  rw [← daysBeforeYear_succ]
  unfold daysBeforeYear
  omega

theorem daysInMonth_pos (year month : ℤ) : 0 < daysInMonth year month := by
  unfold daysInMonth
  split_ifs <;> decide

theorem daysOfMonths_le (year : ℤ) (h : m ≤ n) : daysOfMonths year m ≤ daysOfMonths year n := by
  induction h with
  | refl => exact le_refl _
  | @step n _ ih =>
      have hpos := daysInMonth_pos year (n + 1)
      rw [daysOfMonths]
      omega

theorem daysOfMonths_twelve (year : ℤ) : daysOfMonths year 12 = yearLength year := by
  by_cases h : IsLeapYear year <;> simp [daysOfMonths, daysInMonth, yearLength, h]

/-- A date lies in its month. -/
theorem CivilDate.day_in_month (date : CivilDate) :
    daysOfMonths date.year (date.month.toNat - 1) + date.day ≤
      daysOfMonths date.year date.month.toNat := by
  have hpos := date.month_pos
  have hday := date.day_le
  obtain ⟨k, hk⟩ : ∃ k : ℕ, date.month = k + 1 := ⟨(date.month - 1).toNat, by omega⟩
  have hmonth : date.month.toNat = k + 1 := by omega
  rw [hmonth, Nat.add_sub_cancel, daysOfMonths, ← hk]
  omega

/-- A date lies in its year. -/
theorem CivilDate.day_in_year (date : CivilDate) :
    1 ≤ daysOfMonths date.year (date.month.toNat - 1) + date.day ∧
      daysOfMonths date.year (date.month.toNat - 1) + date.day ≤ yearLength date.year := by
  have hle := date.month_le
  have hday := date.day_pos
  have hmonth := date.day_in_month
  have hzero := daysOfMonths_le date.year (Nat.zero_le (date.month.toNat - 1))
  have htwelve := daysOfMonths_le date.year (show date.month.toNat ≤ 12 by omega)
  rw [daysOfMonths_twelve] at htwelve
  rw [daysOfMonths] at hzero
  omega

theorem CivilDate.year_le {a b : CivilDate} (h : a.dayNumber = b.dayNumber) : a.year ≤ b.year := by
  by_contra hlt
  have hyears := daysBeforeYear_add_le (Int.not_le.mp hlt)
  have ha := a.day_in_year
  have hb := b.day_in_year
  unfold dayNumber at h
  omega

theorem CivilDate.month_le_of_year {a b : CivilDate} (h : a.dayNumber = b.dayNumber)
    (hyear : a.year = b.year) : a.month ≤ b.month := by
  by_contra hlt
  have hpos := b.month_pos
  have hmonths := daysOfMonths_le b.year
    (show b.month.toNat ≤ a.month.toNat - 1 by omega)
  have hb := b.day_in_month
  have ha := a.day_pos
  unfold dayNumber at h
  rw [hyear] at h
  omega

theorem CivilDate.dayNumber_injective {a b : CivilDate} (h : a.dayNumber = b.dayNumber) :
    a = b := by
  have hyear : a.year = b.year := le_antisymm (year_le h) (year_le h.symm)
  have hmonth : a.month = b.month :=
    le_antisymm (month_le_of_year h hyear) (month_le_of_year h.symm hyear.symm)
  have hday : a.day = b.day := by
    unfold dayNumber at h
    rw [hyear, hmonth] at h
    omega
  cases a
  cases b
  simp only at hyear hmonth hday
  subst hyear hmonth hday
  rfl

end Unique

/-! ### The date of a number -/

section Era
variable {doe doy mp : ℤ}

def yearOfEra (doe : ℤ) : ℤ := (doe - doe / 1460 + doe / 36524 - doe / 146096) / 365

/-- The day of the year that begins with March, from 0. -/
def dayOfYear (doe : ℤ) : ℤ :=
  doe - (365 * yearOfEra doe + yearOfEra doe / 4 - yearOfEra doe / 100)

/-- The months from March, from 0. -/
def monthPhase (doy : ℤ) : ℤ := (5 * doy + 2) / 153

/-- The day of an era by its centuries, its spans of four years, and its years; what is left is a
day of the year. -/
theorem exists_parts (hpos : 0 ≤ doe) (hle : doe ≤ 146096) :
    ∃ c q r doy : ℤ, doe = 36524 * c + 1461 * q + 365 * r + doy ∧ (0 ≤ c ∧ c ≤ 3) ∧
      (0 ≤ q ∧ q ≤ 24) ∧ (0 ≤ r ∧ r ≤ 3) ∧ (0 ≤ doy ∧ doy ≤ 365) ∧
      (doy = 365 → r = 3 ∧ (q = 24 → c = 3)) := by
  obtain ⟨c, hc⟩ : ∃ c, c = min (doe / 36524) 3 := ⟨_, rfl⟩
  obtain ⟨q, hq⟩ : ∃ q, q = (doe - 36524 * c) / 1461 := ⟨_, rfl⟩
  obtain ⟨r, hr⟩ : ∃ r, r = min ((doe - 36524 * c - 1461 * q) / 365) 3 := ⟨_, rfl⟩
  refine ⟨c, q, r, doe - 36524 * c - 1461 * q - 365 * r, ?_, ?_, ?_, ?_, ?_, ?_⟩ <;> omega

/-- The leap days before a day of an era are those of the centuries and the spans before it. -/
theorem yearOfEra_parts {c q r doy : ℤ} (hdoe : doe = 36524 * c + 1461 * q + 365 * r + doy)
    (hc : 0 ≤ c ∧ c ≤ 3) (hq : 0 ≤ q ∧ q ≤ 24) (hr : 0 ≤ r ∧ r ≤ 3) (hdoy : 0 ≤ doy ∧ doy ≤ 365)
    (hleap : doy = 365 → r = 3 ∧ (q = 24 → c = 3)) :
    yearOfEra doe = 100 * c + 4 * q + r := by
  have hspans : doe / 1460 = 25 * c + q + (24 * c + q + 365 * r + doy) / 1460 := by omega
  have hcenturies : doe / 36524 = c + doe / 146096 := by
    by_cases hlast : doe = 146096
    · omega
    · have hrest : 1461 * q + 365 * r + doy ≤ 36523 := by omega
      omega
  unfold yearOfEra
  omega

theorem era_spec (doe : ℤ) (hpos : 0 ≤ doe) (hle : doe ≤ 146096) :
    (0 ≤ yearOfEra doe ∧ yearOfEra doe ≤ 399) ∧ (0 ≤ dayOfYear doe ∧ dayOfYear doe ≤ 365) ∧
      (dayOfYear doe = 365 → IsLeapYear (yearOfEra doe + 1)) := by
  obtain ⟨c, q, r, doy, hdoe, hc, hq, hr, hdoy, hleap⟩ := exists_parts hpos hle
  have hyear := yearOfEra_parts hdoe hc hq hr hdoy hleap
  have hday : dayOfYear doe = doy := by
    have hspans : (100 * c + 4 * q + r) / 4 = 25 * c + q := by omega
    have hcenturies : (100 * c + 4 * q + r) / 100 = c := by omega
    rw [dayOfYear, hyear, hspans, hcenturies]
    omega
  rw [hyear, hday]
  unfold IsLeapYear
  omega

/-- A day of the year lies in its month from March. -/
theorem monthPhase_spec (hdoy : 0 ≤ doy ∧ doy ≤ 365) :
    (0 ≤ monthPhase doy ∧ monthPhase doy ≤ 11) ∧ (153 * monthPhase doy + 2) / 5 ≤ doy ∧
      doy < (153 * (monthPhase doy + 1) + 2) / 5 := by
  unfold monthPhase
  omega

/-- From March to December the months begin and end where the phases do. -/
theorem months_from_march (year : ℤ) {k : ℕ} (hk : k < 10) :
    daysOfMonths year (k + 2) = 59 + (yearLength year - 365) + (153 * k + 2) / 5 ∧
      daysInMonth year (k + 3) = (153 * (k + 1) + 2) / 5 - (153 * k + 2) / 5 := by
  by_cases h : IsLeapYear year <;> interval_cases k <;>
    simp [daysOfMonths, daysInMonth, yearLength, h]

/-- Year, month and day of a day of the year that begins with March. -/
def marchDate (year doy : ℤ) : ℤ × ℤ × ℤ :=
  let mp := monthPhase doy
  let month := if mp < 10 then mp + 3 else mp - 9
  (if month ≤ 2 then year + 1 else year, month, doy - (153 * mp + 2) / 5 + 1)

/-- The days from 0000-03-01 to the first of March of a year. -/
def daysBeforeMarch (year : ℤ) : ℤ := 365 * year + year / 4 - year / 100 + year / 400

theorem marchDate_spec {year : ℤ} (hdoy : 0 ≤ doy ∧ doy ≤ 365)
    (hleap : doy = 365 → IsLeapYear (year + 1)) :
    ∃ date : CivilDate, (date.year, date.month, date.day) = marchDate year doy ∧
      date.dayNumber + 719468 = daysBeforeMarch year + doy := by
  obtain ⟨⟨hlow, hhigh⟩, hstart, hstop⟩ := monthPhase_spec hdoy
  have hcount := daysBeforeYear_succ year
  have hmarch : daysBeforeMarch year = daysBeforeYear (year + 1) := by
    unfold daysBeforeMarch daysBeforeYear
    rw [Int.add_sub_cancel]
  have hepoch : daysBeforeYear 1970 = 719162 := by decide
  simp only [marchDate]
  generalize monthPhase doy = mp at *
  by_cases hphase : mp < 10
  · obtain ⟨k, rfl⟩ : ∃ k : ℕ, mp = k := ⟨mp.toNat, by omega⟩
    obtain ⟨hmonths, hlength⟩ := months_from_march year (show k < 10 by omega)
    have hmonth : ((k : ℤ) + 3).toNat - 1 = k + 2 := by omega
    refine ⟨⟨year, k + 3, doy - (153 * k + 2) / 5 + 1, by omega, by omega, by omega, by omega⟩,
      ?_, ?_⟩
    · rw [if_pos hphase, if_neg (by omega)]
    · simp only [CivilDate.dayNumber, hmonth, hmonths, hepoch]
      omega
  · obtain rfl | rfl : mp = 10 ∨ mp = 11 := by omega
    · have hlength : daysInMonth (year + 1) 1 = 31 := by simp [daysInMonth]
      refine ⟨⟨year + 1, 1, doy - 306 + 1, by omega, by omega, by omega, by omega⟩, rfl, ?_⟩
      simp only [CivilDate.dayNumber, Int.toNat_one, Nat.sub_self, daysOfMonths, hepoch]
      omega
    · have hjanuary : daysOfMonths (year + 1) 1 = 31 := by simp [daysOfMonths, daysInMonth]
      have hlength : doy - 337 + 1 ≤ daysInMonth (year + 1) 2 := by
        by_cases h : IsLeapYear (year + 1)
        · have hfebruary : daysInMonth (year + 1) 2 = 29 := by simp [daysInMonth, h]
          omega
        · have hfebruary : daysInMonth (year + 1) 2 = 28 := by simp [daysInMonth, h]
          have hlast : doy ≠ 365 := fun heq => h (hleap heq)
          omega
      refine ⟨⟨year + 1, 2, doy - 337 + 1, by omega, by omega, by omega, hlength⟩, rfl, ?_⟩
      have hmonth : (2 : ℤ).toNat - 1 = 1 := rfl
      simp only [CivilDate.dayNumber, hmonth, hjanuary, hepoch]
      omega

/-- The date of a number, with the era and its day as the quotient and the remainder. -/
theorem exists_civilDate (days : ℤ) :
    ∃ date : CivilDate, date.dayNumber = days ∧
      (date.year, date.month, date.day) =
        marchDate (yearOfEra ((days + 719468) % 146097) + (days + 719468) / 146097 * 400)
          (dayOfYear ((days + 719468) % 146097)) := by
  obtain ⟨doe, hdoe⟩ : ∃ doe, doe = (days + 719468) % 146097 := ⟨_, rfl⟩
  obtain ⟨era, hera⟩ : ∃ era, era = (days + 719468) / 146097 := ⟨_, rfl⟩
  rw [← hdoe, ← hera]
  obtain ⟨hyear, hday, hleap⟩ := era_spec doe (by omega) (by omega)
  have hdays : dayOfYear doe =
      doe - (365 * yearOfEra doe + yearOfEra doe / 4 - yearOfEra doe / 100) := rfl
  have hleap' : dayOfYear doe = 365 → IsLeapYear (yearOfEra doe + era * 400 + 1) := by
    intro hlast
    have hthis := hleap hlast
    unfold IsLeapYear at hthis ⊢
    omega
  obtain ⟨date, hdate, hnumber⟩ := marchDate_spec hday hleap'
  have hfour : (yearOfEra doe + era * 400) / 4 = yearOfEra doe / 4 + era * 100 := by omega
  have hcentury : (yearOfEra doe + era * 400) / 100 = yearOfEra doe / 100 + era * 4 := by omega
  have hera400 : (yearOfEra doe + era * 400) / 400 = era := by omega
  refine ⟨date, ?_, hdate⟩
  rw [daysBeforeMarch, hfour, hcentury, hera400] at hnumber
  omega

end Era

end DbtNova.CivilCalendar
