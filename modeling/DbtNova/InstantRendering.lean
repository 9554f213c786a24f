import DbtNova.CivilCalendar
import DbtNova.EvalTelemetry
import Mathlib.Data.List.DropRight

/-!
# Dates and timestamps as texts

`date32_to_iso`, `timestamp_to_iso` and what they call in `warehouse/duckdb.rs`, and the
`civil_from_days` of `cli/eval_cmd/telemetry.rs`. The numbers are `i64`: a sum, a difference or a
product out of range gives nothing. Quotients and remainders by the positive divisors here are
never out of range; they round towards zero.
-/
namespace DbtNova.InstantRendering
open CivilCalendar

abbrev Str := List Char

def InI64 (n : ℤ) : Prop := -2 ^ 63 ≤ n ∧ n < 2 ^ 63

def InI32 (n : ℤ) : Prop := -2 ^ 31 ≤ n ∧ n < 2 ^ 31

instance (n : ℤ) : Decidable (InI64 n) := inferInstanceAs (Decidable (_ ∧ _))

instance (n : ℤ) : Decidable (InI32 n) := inferInstanceAs (Decidable (_ ∧ _))

/-- What an operation gives unless it overflows. -/
def i64 (n : ℤ) : Option ℤ := if InI64 n then some n else none

def divRemFloor (value divisor : ℤ) : Option (ℤ × ℤ) :=
  let quotient := value.tdiv divisor
  let remainder := value.tmod divisor
  if remainder < 0 then do
    let quotient ← i64 (quotient - 1)
    let remainder ← i64 (remainder + divisor)
    some (quotient, remainder)
  else some (quotient, remainder)

def eraOf (days : ℤ) : Option ℤ :=
  (if 0 ≤ days then some days else i64 (days - 146096)).map fun shifted => shifted.tdiv 146097

def yearOfEra (dayOfEra : ℤ) : Option ℤ := do
  let withoutSpans ← i64 (dayOfEra - dayOfEra.tdiv 1460)
  let withCenturies ← i64 (withoutSpans + dayOfEra.tdiv 36524)
  let withoutEra ← i64 (withCenturies - dayOfEra.tdiv 146096)
  some (withoutEra.tdiv 365)

def dayOfYear (dayOfEra yearOfEra : ℤ) : Option ℤ := do
  let commonDays ← i64 (365 * yearOfEra)
  let withLeapDays ← i64 (commonDays + yearOfEra.tdiv 4)
  let yearDays ← i64 (withLeapDays - yearOfEra.tdiv 100)
  i64 (dayOfEra - yearDays)

def monthPhase (dayOfYear : ℤ) : Option ℤ := do
  let fivefold ← i64 (5 * dayOfYear)
  let scaled ← i64 (fivefold + 2)
  some (scaled.tdiv 153)

def dayOfMonth (dayOfYear monthPhase : ℤ) : Option ℤ := do
  let phaseDays ← i64 (153 * monthPhase)
  let rounded ← i64 (phaseDays + 2)
  let dayFromZero ← i64 (dayOfYear - rounded.tdiv 5)
  i64 (dayFromZero + 1)

/-- Both copies of `civil_from_days` behind their first line. -/
def civilFromShifted (days : ℤ) : Option (ℤ × ℤ × ℤ) := do
  let era ← eraOf days
  let eraDays ← i64 (era * 146097)
  let dayOfEra ← i64 (days - eraDays)
  let yearOfEra ← yearOfEra dayOfEra
  let eraYears ← i64 (era * 400)
  let year ← i64 (yearOfEra + eraYears)
  let dayOfYear ← dayOfYear dayOfEra yearOfEra
  let monthPhase ← monthPhase dayOfYear
  let day ← dayOfMonth dayOfYear monthPhase
  let month ← i64 (monthPhase + if monthPhase < 10 then 3 else -9)
  let year ← i64 (year + if month ≤ 2 then 1 else 0)
  some (year, month, day)

def civilFromDays (daysSinceEpoch : ℤ) : Option (ℤ × ℤ × ℤ) := do
  let days ← i64 (daysSinceEpoch + 719468)
  civilFromShifted days

def i64SaturatingAdd (a b : ℤ) : ℤ := max (-2 ^ 63) (min (2 ^ 63 - 1) (a + b))

/-- The copy for eval telemetry. It gives the year as an `i32` and the month and the day as `u32`,
with defaults where they do not fit. -/
def telemetryCivilFromDays (daysSinceEpoch : ℤ) : Option (ℤ × ℤ × ℤ) := do
  let (year, month, day) ← civilFromShifted (i64SaturatingAdd daysSinceEpoch 719468)
  some (if InI32 year then year else 2 ^ 31 - 1,
    if 0 ≤ month ∧ month < 2 ^ 32 then month else 12,
    if 0 ≤ day ∧ day < 2 ^ 32 then day else 31)

/-! ### Texts -/

def digits (n : ℤ) : Str := Nat.toDigits 10 n.natAbs

/-- `{n:0width}`. The sign counts to the width. -/
def zeroPadded (width : ℕ) (n : ℤ) : Str :=
  if n < 0 then '-' :: (List.replicate (width - 1 - (digits n).length) '0' ++ digits n)
  else List.replicate (width - (digits n).length) '0' ++ digits n

def formatDate (year month day : ℤ) : Str :=
  (if 0 ≤ year ∧ year ≤ 9999 then zeroPadded 4 year else zeroPadded 0 year) ++
    ('-' :: zeroPadded 2 month ++ '-' :: zeroPadded 2 day)

def formatTimeOfDay (secondsOfDay nanos : ℤ) : Str :=
  let hours := secondsOfDay.tdiv 3600
  let minutes := (secondsOfDay.tmod 3600).tdiv 60
  let seconds := secondsOfDay.tmod 60
  let clock := zeroPadded 2 hours ++ ':' :: zeroPadded 2 minutes ++ ':' :: zeroPadded 2 seconds
  if nanos = 0 then clock else clock ++ '.' :: (zeroPadded 9 nanos).rdropWhile (· == '0')

def date32ToIso (daysSinceEpoch : ℤ) : Option Str := do
  let (year, month, day) ← civilFromDays daysSinceEpoch
  some (formatDate year month day)

inductive TimeUnit
  | second | millisecond | microsecond | nanosecond

/-- Seconds, and the nanoseconds behind them. -/
def splitSeconds (unit : TimeUnit) (value : ℤ) : Option (ℤ × ℤ) :=
  match unit with
  | .second => some (value, 0)
  | .millisecond => do
      let (seconds, millis) ← divRemFloor value 1000
      let nanos ← i64 (millis * 1000000)
      some (seconds, nanos)
  | .microsecond => do
      let (seconds, micros) ← divRemFloor value 1000000
      let nanos ← i64 (micros * 1000)
      some (seconds, nanos)
  | .nanosecond => divRemFloor value 1000000000

def timestampToIso (unit : TimeUnit) (value : ℤ) : Option Str := do
  let (seconds, nanos) ← splitSeconds unit value
  let (days, secondsOfDay) ← divRemFloor seconds 86400
  let (year, month, day) ← civilFromDays days
  some (formatDate year month day ++ 'T' :: formatTimeOfDay secondsOfDay nanos)

/-! ### No operation overflows -/

section Arithmetic
variable {n value divisor days doe doy mp : ℤ}

theorem i64_eq (h : InI64 n) : i64 n = some n := if_pos h

theorem divRemFloor_eq (hpos : 0 < divisor) (hvalue : InI64 value) (hdivisor : InI64 divisor) :
    divRemFloor value divisor = some (value / divisor, value % divisor) := by
  have hquotient := Int.tdiv_eq_ediv (a := value) (b := divisor)
  have hremainder := Int.tmod_eq_emod (a := value) (b := divisor)
  have hlow := Int.emod_nonneg value hpos.ne'
  have hhigh := Int.emod_lt_of_pos value hpos
  simp only [divRemFloor]
  by_cases h : 0 ≤ value ∨ divisor ∣ value
  · rw [if_pos h, Int.add_zero] at hquotient
    rw [if_pos h, Int.natCast_zero, Int.sub_zero] at hremainder
    rw [hquotient, hremainder, if_neg (Int.not_lt.mpr hlow)]
  · rw [if_neg h] at hquotient hremainder
    have hneg : value < 0 := by
      by_contra hle
      exact h (Or.inl (Int.not_lt.mp hle))
    have hsign : divisor.sign = 1 := Int.sign_eq_one_of_pos hpos
    have hdown : value.tmod divisor < 0 := by
      rw [hremainder]
      omega
    have hbelow : value ≤ value / divisor := by
      have hdecomposed := Int.mul_ediv_add_emod value divisor
      nlinarith [Int.ediv_neg_of_neg_of_pos hneg hpos]
    have habove : value / divisor < 0 := Int.ediv_neg_of_neg_of_pos hneg hpos
    have hq : value.tdiv divisor - 1 = value / divisor := by
      rw [hquotient, hsign]
      omega
    have hr : value.tmod divisor + divisor = value % divisor := by
      rw [hremainder]
      omega
    unfold InI64 at hvalue hdivisor
    rw [if_pos hdown, hq, hr, i64_eq ⟨by omega, by omega⟩, i64_eq ⟨by omega, by omega⟩]
    rfl

theorem bind_of_eq {α β : Type} {x : Option α} {a : α} (f : α → Option β) (h : x = some a) :
    (x >>= f) = f a := by
  rw [h]
  rfl

theorem bind_i64 {α : Type} (f : ℤ → Option α) (h : InI64 n) : (i64 n >>= f) = f n :=
  bind_of_eq f (i64_eq h)

/-- Rounding towards zero is made up for below zero. -/
theorem eraOf_eq (hlow : -2 ^ 63 + 146096 ≤ days) (hhigh : days < 2 ^ 63) :
    eraOf days = some (days / 146097) := by
  unfold eraOf
  by_cases hsign : 0 ≤ days
  · rw [if_pos hsign, Option.map_some, Int.tdiv_eq_ediv_of_nonneg hsign]
  · have hone : Int.sign 146097 = 1 := rfl
    rw [if_neg hsign, i64_eq ⟨by omega, by omega⟩, Option.map_some, Int.tdiv_eq_ediv]
    split_ifs <;> congr 1 <;> omega

theorem yearOfEra_eq (hpos : 0 ≤ doe) (hle : doe ≤ 146096) :
    yearOfEra doe = some (CivilCalendar.yearOfEra doe) := by
  unfold yearOfEra CivilCalendar.yearOfEra
  simp only [Int.tdiv_eq_ediv_of_nonneg hpos]
  rw [bind_i64 _ ⟨by omega, by omega⟩, bind_i64 _ ⟨by omega, by omega⟩,
    bind_i64 _ ⟨by omega, by omega⟩, Int.tdiv_eq_ediv_of_nonneg (by omega)]

theorem dayOfYear_eq (hpos : 0 ≤ doe) (hle : doe ≤ 146096) :
    dayOfYear doe (CivilCalendar.yearOfEra doe) = some (CivilCalendar.dayOfYear doe) := by
  obtain ⟨hyear, hday, -⟩ := era_spec doe hpos hle
  have hdef : CivilCalendar.dayOfYear doe = doe - (365 * CivilCalendar.yearOfEra doe +
    CivilCalendar.yearOfEra doe / 4 - CivilCalendar.yearOfEra doe / 100) := rfl
  unfold dayOfYear
  rw [hdef]
  generalize CivilCalendar.yearOfEra doe = year at *
  simp only [Int.tdiv_eq_ediv_of_nonneg hyear.1]
  rw [bind_i64 _ ⟨by omega, by omega⟩, bind_i64 _ ⟨by omega, by omega⟩,
    bind_i64 _ ⟨by omega, by omega⟩, i64_eq ⟨by omega, by omega⟩]

theorem monthPhase_eq (hdoy : 0 ≤ doy ∧ doy ≤ 365) :
    monthPhase doy = some (CivilCalendar.monthPhase doy) := by
  unfold monthPhase CivilCalendar.monthPhase
  rw [bind_i64 _ ⟨by omega, by omega⟩, bind_i64 _ ⟨by omega, by omega⟩,
    Int.tdiv_eq_ediv_of_nonneg (by omega)]

theorem dayOfMonth_eq (hdoy : 0 ≤ doy ∧ doy ≤ 365) (hmp : 0 ≤ mp ∧ mp ≤ 11) :
    dayOfMonth doy mp = some (doy - (153 * mp + 2) / 5 + 1) := by
  unfold dayOfMonth
  rw [bind_i64 _ ⟨by omega, by omega⟩, bind_i64 _ ⟨by omega, by omega⟩,
    Int.tdiv_eq_ediv_of_nonneg (by omega), bind_i64 _ ⟨by omega, by omega⟩,
    i64_eq ⟨by omega, by omega⟩]

/-- The shifted day numbers whose era can be found. -/
theorem civilFromShifted_eq (days : ℤ) (hlow : -2 ^ 63 + 146096 ≤ days) (hhigh : days < 2 ^ 63) :
    ∃ date : CivilDate, date.dayNumber + 719468 = days ∧
      civilFromShifted days = some (date.year, date.month, date.day) := by
  obtain ⟨date, hnumber, hdate⟩ := exists_civilDate (days - 719468)
  rw [Int.sub_add_cancel] at hdate
  refine ⟨date, by omega, ?_⟩
  have hdoe : days - days / 146097 * 146097 = days % 146097 := by omega
  obtain ⟨hyear, hday, -⟩ := era_spec (days % 146097) (by omega) (by omega)
  obtain ⟨hphase, -⟩ := monthPhase_spec hday
  unfold civilFromShifted
  rw [hdate, bind_of_eq _ (eraOf_eq hlow hhigh), bind_i64 _ ⟨by omega, by omega⟩, hdoe,
    bind_i64 _ ⟨by omega, by omega⟩, bind_of_eq _ (yearOfEra_eq (by omega) (by omega)),
    bind_i64 _ ⟨by omega, by omega⟩, bind_i64 _ ⟨by omega, by omega⟩,
    bind_of_eq _ (dayOfYear_eq (by omega) (by omega)), bind_of_eq _ (monthPhase_eq hday),
    bind_of_eq _ (dayOfMonth_eq hday hphase)]
  simp only [marchDate]
  generalize CivilCalendar.monthPhase (CivilCalendar.dayOfYear (days % 146097)) = mp at *
  have hmonth : (mp + if mp < 10 then 3 else -9) = if mp < 10 then mp + 3 else mp - 9 := by
    split <;> rfl
  have hmonths : -12 ≤ (if mp < 10 then mp + 3 else mp - 9) ∧
      (if mp < 10 then mp + 3 else mp - 9) ≤ 12 := by
    split <;> omega
  rw [hmonth, bind_i64 _ ⟨by omega, by omega⟩]
  generalize (if mp < 10 then mp + 3 else mp - 9) = month
  by_cases hnext : month ≤ 2
  · simp only [hnext, if_true]
    rw [bind_i64 _ ⟨by omega, by omega⟩]
  · simp only [hnext, if_false, Int.add_zero]
    rw [bind_i64 _ ⟨by omega, by omega⟩]

theorem civilFromDays_eq (days : ℤ) (hlow : -2 ^ 63 ≤ days) (hhigh : days < 2 ^ 63 - 719468) :
    ∃ date : CivilDate, date.dayNumber = days ∧
      civilFromDays days = some (date.year, date.month, date.day) := by
  obtain ⟨date, hnumber, hdate⟩ := civilFromShifted_eq (days + 719468) (by omega) (by omega)
  refine ⟨date, by omega, ?_⟩
  unfold civilFromDays
  rw [bind_i64 _ ⟨by omega, by omega⟩, hdate]

/-- The copy for telemetry gives the same date where the year is an `i32`. -/
theorem telemetryCivilFromDays_eq {date : CivilDate} (hlow : -2 ^ 63 ≤ days)
    (hhigh : days < 2 ^ 63 - 719468) (hnumber : date.dayNumber = days) :
    telemetryCivilFromDays days =
      some (if InI32 date.year then date.year else 2 ^ 31 - 1, date.month, date.day) := by
  obtain ⟨date', hnumber', hdate⟩ :=
    civilFromShifted_eq (days + 719468) (by omega) (by omega)
  obtain rfl : date' = date := CivilDate.dayNumber_injective (by omega)
  have hsaturates : i64SaturatingAdd days 719468 = days + 719468 := by
    unfold i64SaturatingAdd
    omega
  have hpos := date'.month_pos
  have hle := date'.month_le
  have hday := date'.day_pos
  have hlast : daysInMonth date'.year date'.month ≤ 31 := by
    unfold daysInMonth
    split_ifs <;> decide
  have hdayle := date'.day_le
  have hmonthFits : 0 ≤ date'.month ∧ date'.month < 2 ^ 32 := ⟨by omega, by omega⟩
  have hdayFits : 0 ≤ date'.day ∧ date'.day < 2 ^ 32 := ⟨by omega, by omega⟩
  unfold telemetryCivilFromDays
  rw [hsaturates, bind_of_eq _ hdate]
  simp only [hmonthFits, hdayFits, and_self, if_true]

end Arithmetic

/-! ### Texts tell numbers apart -/

section Texts
variable {width : ℕ} {n m : ℤ}

theorem zeroPadded_of_nonneg (h : 0 ≤ n) :
    zeroPadded width n = List.replicate (width - (digits n).length) '0' ++ digits n :=
  if_neg (Int.not_lt.mpr h)

theorem ofDigitChars_zeroPadded (h : 0 ≤ n) :
    Nat.ofDigitChars 10 (zeroPadded width n) 0 = n.natAbs := by
  rw [zeroPadded_of_nonneg h, Nat.ofDigitChars_append, Nat.ofDigitChars_replicate_zero,
    Nat.mul_zero, digits, Nat.ofDigitChars_ten_toDigits]

theorem zeroPadded_injective {width' : ℕ} (hn : 0 ≤ n) (hm : 0 ≤ m)
    (h : zeroPadded width n = zeroPadded width' m) : n = m := by
  have hread := congrArg (fun text => Nat.ofDigitChars 10 text 0) h
  simp only [ofDigitChars_zeroPadded hn, ofDigitChars_zeroPadded hm] at hread
  omega

theorem length_zeroPadded (hwidth : 0 < width) (h : 0 ≤ n) (hlt : n < 10 ^ width) :
    (zeroPadded width n).length = width := by
  have hdigits : (digits n).length ≤ width := by
    refine (Nat.length_toDigits_le_iff (by decide) hwidth).mpr ?_
    zify
    rwa [abs_of_nonneg h]
  rw [zeroPadded_of_nonneg h, List.length_append, List.length_replicate]
  omega

theorem isDigit_of_mem_zeroPadded (h : 0 ≤ n) {c : Char} (hc : c ∈ zeroPadded width n) :
    c.isDigit = true := by
  rw [zeroPadded_of_nonneg h] at hc
  rcases List.mem_append.mp hc with hc | hc
  · rw [List.eq_of_mem_replicate hc]
    rfl
  · exact Nat.isDigit_of_mem_toDigits (by decide) (by decide) hc

/-- A year is padded where it is not negative and has no more than four digits. -/
theorem year_injective
    (h : (if 0 ≤ n ∧ n ≤ 9999 then zeroPadded 4 n else zeroPadded 0 n) =
      if 0 ≤ m ∧ m ≤ 9999 then zeroPadded 4 m else zeroPadded 0 m) : n = m := by
  have hpad : ∀ k : ℤ, ∃ width, (if 0 ≤ k ∧ k ≤ 9999 then zeroPadded 4 k else zeroPadded 0 k) =
      zeroPadded width k := by
    intro k
    split
    · exact ⟨4, rfl⟩
    · exact ⟨0, rfl⟩
  have hneg : ∀ k < 0, (if 0 ≤ k ∧ k ≤ 9999 then zeroPadded 4 k else zeroPadded 0 k) =
      '-' :: digits k := by
    intro k hk
    rw [if_neg (by omega), zeroPadded, if_pos hk, Nat.zero_sub]
    rfl
  -- the sign of a negative year is no digit
  have hsign : ∀ j k : ℤ, 0 ≤ j → k < 0 →
      (if 0 ≤ j ∧ j ≤ 9999 then zeroPadded 4 j else zeroPadded 0 j) ≠
        if 0 ≤ k ∧ k ≤ 9999 then zeroPadded 4 k else zeroPadded 0 k := by
    intro j k hj hk heq
    obtain ⟨width, hwidth⟩ := hpad j
    rw [hneg k hk, hwidth] at heq
    have hminus : '-' ∈ zeroPadded width j := by
      rw [heq]
      exact List.mem_cons_self
    exact absurd (isDigit_of_mem_zeroPadded hj hminus) (by decide)
  by_cases hn : 0 ≤ n <;> by_cases hm : 0 ≤ m
  · obtain ⟨width, hwidth⟩ := hpad n
    obtain ⟨width', hwidth'⟩ := hpad m
    rw [hwidth, hwidth'] at h
    exact zeroPadded_injective hn hm h
  · exact absurd h (hsign n m hn (Int.not_le.mp hm))
  · exact absurd h.symm (hsign m n hm (Int.not_le.mp hn))
  · rw [hneg n (Int.not_le.mp hn), hneg m (Int.not_le.mp hm)] at h
    have hread := congrArg (fun text => Nat.ofDigitChars 10 text 0) (List.cons.inj h).2
    simp only [digits, Nat.ofDigitChars_ten_toDigits] at hread
    omega

theorem CivilDate.month_day_lt (date : CivilDate) :
    (0 ≤ date.month ∧ date.month < 10 ^ 2) ∧ 0 ≤ date.day ∧ date.day < 10 ^ 2 := by
  have hpos := date.month_pos
  have hle := date.month_le
  have hday := date.day_pos
  have hdayle := date.day_le
  have hlast : daysInMonth date.year date.month ≤ 31 := by
    unfold daysInMonth
    split_ifs <;> decide
  omega

theorem formatDate_injective {a b : CivilDate}
    (h : formatDate a.year a.month a.day = formatDate b.year b.month b.day) : a = b := by
  obtain ⟨⟨hamonth, hamonth'⟩, haday, haday'⟩ := CivilDate.month_day_lt a
  obtain ⟨⟨hbmonth, hbmonth'⟩, hbday, hbday'⟩ := CivilDate.month_day_lt b
  have hal := length_zeroPadded (by decide) hamonth hamonth'
  have had := length_zeroPadded (by decide) haday haday'
  have hbl := length_zeroPadded (by decide) hbmonth hbmonth'
  have hbd := length_zeroPadded (by decide) hbday hbday'
  obtain ⟨hyear, hrest⟩ := List.append_inj' h (by simp [hal, had, hbl, hbd])
  obtain ⟨hmonth, hday⟩ := List.append_inj (List.cons.inj hrest).2 (hal.trans hbl.symm)
  have hy := year_injective hyear
  have hm := zeroPadded_injective hamonth hbmonth hmonth
  have hd := zeroPadded_injective haday hbday (List.cons.inj hday).2
  cases a
  cases b
  simp only at hy hm hd
  subst hy hm hd
  rfl

theorem mem_zeroPadded {c : Char} (hc : c ∈ zeroPadded width n) : c = '-' ∨ c.isDigit = true := by
  by_cases h : n < 0
  · rw [zeroPadded, if_pos h] at hc
    rcases List.mem_cons.mp hc with rfl | hc
    · exact Or.inl rfl
    · rcases List.mem_append.mp hc with hc | hc
      · rw [List.eq_of_mem_replicate hc]
        exact Or.inr rfl
      · exact Or.inr (Nat.isDigit_of_mem_toDigits (by decide) (by decide) hc)
  · exact Or.inr (isDigit_of_mem_zeroPadded (Int.not_lt.mp h) hc)

theorem mem_formatDate {year month day : ℤ} {c : Char} (hc : c ∈ formatDate year month day) :
    c = '-' ∨ c.isDigit = true := by
  rcases List.mem_append.mp hc with hc | hc
  · split at hc
    · exact mem_zeroPadded hc
    · exact mem_zeroPadded hc
  · rcases List.mem_append.mp hc with hc | hc
    · exact (List.mem_cons.mp hc).elim Or.inl mem_zeroPadded
    · exact (List.mem_cons.mp hc).elim Or.inl mem_zeroPadded

/-- The zeros that were taken off are known from what is left. -/
theorem rdropWhile_injective {l l' : Str} (hlen : l.length = l'.length)
    (h : l.rdropWhile (· == '0') = l'.rdropWhile (· == '0')) : l = l' := by
  have hzeros : ∀ text : Str, text.rtakeWhile (· == '0') =
      List.replicate (text.rtakeWhile (· == '0')).length '0' := by
    intro text
    refine List.eq_replicate_of_mem fun c hc => ?_
    have hzero := List.mem_rtakeWhile_imp (p := fun c => c == '0') hc
    exact eq_of_beq hzero
  have hl := List.rdropWhile_append_rtakeWhile (p := (· == '0')) (l := l)
  have hl' := List.rdropWhile_append_rtakeWhile (p := (· == '0')) (l := l')
  have hrest : (l.rtakeWhile (· == '0')).length = (l'.rtakeWhile (· == '0')).length := by
    have hlengths := congrArg List.length hl
    have hlengths' := congrArg List.length hl'
    rw [List.length_append] at hlengths hlengths'
    rw [h] at hlengths
    omega
  rw [← hl, ← hl', h, hzeros l, hzeros l', hrest]

def clockText (secondsOfDay : ℤ) : Str :=
  zeroPadded 2 (secondsOfDay / 3600) ++ ':' :: zeroPadded 2 (secondsOfDay % 3600 / 60) ++
    ':' :: zeroPadded 2 (secondsOfDay % 60)

def fractionText (nanos : ℤ) : Str :=
  if nanos = 0 then [] else '.' :: (zeroPadded 9 nanos).rdropWhile (· == '0')

theorem formatTimeOfDay_eq {s : ℤ} (hs : 0 ≤ s) (n : ℤ) :
    formatTimeOfDay s n = clockText s ++ fractionText n := by
  have hrest : 0 ≤ s % 3600 := Int.emod_nonneg s (by decide)
  simp only [formatTimeOfDay, clockText, fractionText, Int.tdiv_eq_ediv_of_nonneg hs,
    Int.tmod_eq_emod_of_nonneg hs, Int.tdiv_eq_ediv_of_nonneg hrest]
  split
  · rw [List.append_nil]
  · rfl

theorem clock_lt {s : ℤ} (hs : 0 ≤ s ∧ s < 86400) :
    (0 ≤ s / 3600 ∧ s / 3600 < 10 ^ 2) ∧ (0 ≤ s % 3600 / 60 ∧ s % 3600 / 60 < 10 ^ 2) ∧
      0 ≤ s % 60 ∧ s % 60 < 10 ^ 2 := by
  omega

theorem length_clockText {s : ℤ} (hs : 0 ≤ s ∧ s < 86400) : (clockText s).length = 8 := by
  obtain ⟨⟨hh, hh'⟩, ⟨hm, hm'⟩, hsec, hsec'⟩ := clock_lt hs
  have hhours := length_zeroPadded (show 0 < 2 by decide) hh hh'
  have hminutes := length_zeroPadded (show 0 < 2 by decide) hm hm'
  have hseconds := length_zeroPadded (show 0 < 2 by decide) hsec hsec'
  simp only [clockText, List.length_append, List.length_cons, hhours, hminutes, hseconds]

theorem clockText_injective {s t : ℤ} (hs : 0 ≤ s ∧ s < 86400) (ht : 0 ≤ t ∧ t < 86400)
    (h : clockText s = clockText t) : s = t := by
  obtain ⟨⟨hsh, hsh'⟩, ⟨hsm, hsm'⟩, hss, -⟩ := clock_lt hs
  obtain ⟨⟨hth, hth'⟩, ⟨htm, htm'⟩, hts, -⟩ := clock_lt ht
  have hhours := (length_zeroPadded (show 0 < 2 by decide) hsh hsh').trans
    (length_zeroPadded (by decide) hth hth').symm
  have hminutes := (length_zeroPadded (show 0 < 2 by decide) hsm hsm').trans
    (length_zeroPadded (by decide) htm htm').symm
  simp only [clockText, List.append_assoc] at h
  obtain ⟨hhour, hrest⟩ := List.append_inj h hhours
  obtain ⟨hminute, hsecond⟩ := List.append_inj (List.cons.inj hrest).2 hminutes
  have hhourEq := zeroPadded_injective hsh hth hhour
  have hminuteEq := zeroPadded_injective hsm htm hminute
  have hsecondEq := zeroPadded_injective hss hts (List.cons.inj hsecond).2
  omega

theorem fractionText_injective (hn : 0 ≤ n ∧ n < 10 ^ 9) (hm : 0 ≤ m ∧ m < 10 ^ 9)
    (h : fractionText n = fractionText m) : n = m := by
  unfold fractionText at h
  split_ifs at h with hnzero hmzero hmzero
  · rw [hnzero, hmzero]
  · have hlengths := (length_zeroPadded (show 0 < 9 by decide) hn.1 hn.2).trans
      (length_zeroPadded (by decide) hm.1 hm.2).symm
    exact zeroPadded_injective hn.1 hm.1 (rdropWhile_injective hlengths (List.cons.inj h).2)

theorem formatTimeOfDay_injective {s t : ℤ} (hs : 0 ≤ s ∧ s < 86400) (ht : 0 ≤ t ∧ t < 86400)
    (hn : 0 ≤ n ∧ n < 10 ^ 9) (hm : 0 ≤ m ∧ m < 10 ^ 9)
    (h : formatTimeOfDay s n = formatTimeOfDay t m) : s = t ∧ n = m := by
  rw [formatTimeOfDay_eq hs.1, formatTimeOfDay_eq ht.1] at h
  obtain ⟨hclock, hfraction⟩ :=
    List.append_inj h ((length_clockText hs).trans (length_clockText ht).symm)
  exact ⟨clockText_injective hs ht hclock, fractionText_injective hn hm hfraction⟩

end Texts

/-! ### Instants -/

section Instants
variable {unit : TimeUnit} {value : ℤ}

def TimeUnit.nanos : TimeUnit → ℤ
  | .second => 10 ^ 9
  | .millisecond => 10 ^ 6
  | .microsecond => 10 ^ 3
  | .nanosecond => 1

theorem splitSeconds_eq (unit : TimeUnit) (h : InI64 value) :
    splitSeconds unit value =
      some (value * unit.nanos / 10 ^ 9, value * unit.nanos % 10 ^ 9) := by
  cases unit with
  | second =>
      simp only [splitSeconds, TimeUnit.nanos, Option.some.injEq, Prod.mk.injEq]
      omega
  | millisecond =>
      have hdivide := divRemFloor_eq (show (0 : ℤ) < 1000 by decide) h (by decide)
      simp only [splitSeconds, TimeUnit.nanos]
      rw [bind_of_eq _ hdivide, bind_i64 _ ⟨by omega, by omega⟩]
      simp only [Option.some.injEq, Prod.mk.injEq]
      omega
  | microsecond =>
      have hdivide := divRemFloor_eq (show (0 : ℤ) < 1000000 by decide) h (by decide)
      simp only [splitSeconds, TimeUnit.nanos]
      rw [bind_of_eq _ hdivide, bind_i64 _ ⟨by omega, by omega⟩]
      simp only [Option.some.injEq, Prod.mk.injEq]
      omega
  | nanosecond =>
      simp only [splitSeconds, TimeUnit.nanos, Int.mul_one]
      exact divRemFloor_eq (by decide) h (by decide)

/-- What a text stands for: a date, and a time of that day. -/
structure Denotes (text : Str) (nanos : ℤ) (date : CivilDate) (s n : ℤ) : Prop where
  text_eq : text = formatDate date.year date.month date.day ++ 'T' :: formatTimeOfDay s n
  second : 0 ≤ s ∧ s < 86400
  fraction : 0 ≤ n ∧ n < 10 ^ 9
  instant : (date.dayNumber * 86400 + s) * 10 ^ 9 + n = nanos

theorem timestampToIso_eq (unit : TimeUnit) (h : InI64 value) :
    ∃ text date s n, timestampToIso unit value = some text ∧
      Denotes text (value * unit.nanos) date s n := by
  have hsplit := splitSeconds_eq unit h
  have hrange : InI64 (value * unit.nanos / 10 ^ 9) := by
    obtain ⟨hlow, hhigh⟩ := h
    unfold InI64
    cases unit <;> simp only [TimeUnit.nanos] <;> omega
  generalize value * unit.nanos = nanos at *
  have hdays := divRemFloor_eq (show (0 : ℤ) < 86400 by decide) hrange (by decide)
  unfold InI64 at hrange
  obtain ⟨date, hnumber, hdate⟩ :=
    civilFromDays_eq (nanos / 10 ^ 9 / 86400) (by omega) (by omega)
  refine ⟨_, date, nanos / 10 ^ 9 % 86400, nanos % 10 ^ 9, ?_, rfl, by omega, by omega, by omega⟩
  exact (bind_of_eq _ hsplit).trans ((bind_of_eq _ hdays).trans (bind_of_eq _ hdate))

theorem denotes_injective {text : Str} {nanos nanos' s n s' n' : ℤ} {date date' : CivilDate}
    (h : Denotes text nanos date s n) (h' : Denotes text nanos' date' s' n') : nanos = nanos' := by
  have htext := h.text_eq.symm.trans h'.text_eq
  have hfront : ∀ {a b c d : Str}, 'T' ∉ a → 'T' ∉ c → a ++ 'T' :: b = c ++ 'T' :: d →
      a = c ∧ b = d := by
    intro a b c d ha hc heq
    obtain ⟨between, hac, hbd⟩ | ⟨between, hca, hdb⟩ := List.append_eq_append_iff.mp heq
    · cases between with
      | nil => exact ⟨by rw [hac, List.append_nil], (List.cons.inj hbd).2⟩
      | cons t between =>
          rw [hac, (List.cons.inj hbd).1] at hc
          exact absurd (List.mem_append_right a List.mem_cons_self) hc
    · cases between with
      | nil => exact ⟨by rw [hca, List.append_nil], (List.cons.inj hdb).2.symm⟩
      | cons t between =>
          rw [hca, (List.cons.inj hdb).1] at ha
          exact absurd (List.mem_append_right c List.mem_cons_self) ha
  have hnone : ∀ d : CivilDate, 'T' ∉ formatDate d.year d.month d.day := by
    intro d hT
    exact absurd (mem_formatDate hT) (by decide)
  obtain ⟨hdate, htime⟩ := hfront (hnone date) (hnone date') htext
  obtain ⟨rfl, rfl⟩ := formatTimeOfDay_injective h.second h'.second h.fraction h'.fraction htime
  rw [← h.instant, ← h'.instant, formatDate_injective hdate]

theorem timestampToIso_injective {value' : ℤ} (unit : TimeUnit) (h : InI64 value)
    (h' : InI64 value') (heq : timestampToIso unit value = timestampToIso unit value') :
    value = value' := by
  obtain ⟨text, date, s, n, htext, hdenotes⟩ := timestampToIso_eq unit h
  obtain ⟨text', date', s', n', htext', hdenotes'⟩ := timestampToIso_eq unit h'
  obtain rfl : text = text' := Option.some.inj (htext.symm.trans (heq.trans htext'))
  have hnanos := denotes_injective hdenotes hdenotes'
  cases unit <;> simp only [TimeUnit.nanos] at hnanos <;> omega

theorem date32ToIso_eq {days : ℤ} (h : InI32 days) :
    ∃ date : CivilDate, date.dayNumber = days ∧
      date32ToIso days = some (formatDate date.year date.month date.day) := by
  obtain ⟨hlow, hhigh⟩ := h
  obtain ⟨date, hnumber, hdate⟩ := civilFromDays_eq days (by omega) (by omega)
  refine ⟨date, hnumber, ?_⟩
  unfold date32ToIso
  rw [bind_of_eq _ hdate]

theorem date32ToIso_injective {days days' : ℤ} (h : InI32 days) (h' : InI32 days')
    (heq : date32ToIso days = date32ToIso days') : days = days' := by
  obtain ⟨date, hnumber, htext⟩ := date32ToIso_eq h
  obtain ⟨date', hnumber', htext'⟩ := date32ToIso_eq h'
  rw [htext, htext'] at heq
  rw [← hnumber, ← hnumber', formatDate_injective (Option.some.inj heq)]

/-! ### The copies agree -/

/-- The years of day numbers not before 1970-01-01 and not too far behind it are `i32`. -/
theorem CivilDate.inI32_year {date : CivilDate} (hlow : 0 ≤ date.dayNumber)
    (hhigh : date.dayNumber < 2 ^ 39) : InI32 date.year := by
  obtain ⟨hfirst, hlast⟩ := date.day_in_year
  have hlength : yearLength date.year ≤ 366 := by
    unfold yearLength
    split <;> decide
  have hepoch : daysBeforeYear 1970 = 719162 := by decide
  unfold CivilDate.dayNumber at hlow hhigh
  rw [hepoch] at hlow hhigh
  have hbefore : daysBeforeYear date.year = 365 * (date.year - 1) + (date.year - 1) / 4 -
      (date.year - 1) / 100 + (date.year - 1) / 400 := rfl
  unfold InI32
  omega

/-- The day number that a stamp of eval telemetry is made from. -/
theorem telemetry_day_agrees (timestampMs : UInt64) :
    ∃ date : CivilDate, date.dayNumber = (timestampMs.toNat / 1000 / 86400 : ℕ) ∧
      civilFromDays (timestampMs.toNat / 1000 / 86400 : ℕ) =
        some (date.year, date.month, date.day) ∧
      telemetryCivilFromDays (timestampMs.toNat / 1000 / 86400 : ℕ) =
        some (date.year, date.month, date.day) := by
  have hlt := timestampMs.toNat_lt
  obtain ⟨date, hnumber, hdate⟩ :=
    civilFromDays_eq (timestampMs.toNat / 1000 / 86400 : ℕ) (by omega) (by omega)
  have hyear : InI32 date.year := CivilDate.inI32_year (by omega) (by omega)
  refine ⟨date, hnumber, hdate, ?_⟩
  rw [telemetryCivilFromDays_eq (by omega) (by omega) hnumber, if_pos hyear]

/-- The date of the rows of a telemetry file, on natural numbers. -/
theorem evalTelemetry_civilFromDays (days : ℕ) :
    ∃ date : CivilDate, date.dayNumber = days ∧
      (((EvalTelemetry.civilFromDays days).1 : ℤ), ((EvalTelemetry.civilFromDays days).2.1 : ℤ),
        ((EvalTelemetry.civilFromDays days).2.2 : ℤ)) = (date.year, date.month, date.day) := by
  obtain ⟨date, hnumber, hdate⟩ := exists_civilDate days
  refine ⟨date, hnumber, ?_⟩
  rw [hdate]
  obtain ⟨era, hera⟩ : ∃ era, era = (days + 719468) / 146097 := ⟨_, rfl⟩
  obtain ⟨doe, hdoe⟩ : ∃ doe, doe = days + 719468 - era * 146097 := ⟨_, rfl⟩
  obtain ⟨yoe, hyoe⟩ : ∃ yoe, yoe = (doe - doe / 1460 + doe / 36524 - doe / 146096) / 365 :=
    ⟨_, rfl⟩
  obtain ⟨doy, hdoy⟩ : ∃ doy, doy = doe - (365 * yoe + yoe / 4 - yoe / 100) := ⟨_, rfl⟩
  obtain ⟨mp, hmp⟩ : ∃ mp, mp = (5 * doy + 2) / 153 := ⟨_, rfl⟩
  have hdoeInt : ((days : ℤ) + 719468) % 146097 = doe := by omega
  have heraInt : ((days : ℤ) + 719468) / 146097 = era := by omega
  obtain ⟨hyear, hday, -⟩ := era_spec doe (by omega) (by omega)
  have hyoeInt : CivilCalendar.yearOfEra doe = yoe := by
    unfold CivilCalendar.yearOfEra
    omega
  have hdoyInt : CivilCalendar.dayOfYear doe = doy := by
    unfold CivilCalendar.dayOfYear at hday ⊢
    rw [hyoeInt] at hday ⊢
    omega
  rw [hdoyInt] at hday
  have hmpInt : CivilCalendar.monthPhase doy = mp := by
    unfold CivilCalendar.monthPhase
    omega
  obtain ⟨⟨-, hlast⟩, hstart, -⟩ := monthPhase_spec hday
  rw [hmpInt] at hlast hstart
  simp only [EvalTelemetry.civilFromDays, marchDate, ← hera, ← hdoe, ← hyoe, ← hdoy, ← hmp,
    hdoeInt, heraInt, hyoeInt, hdoyInt, hmpInt, Prod.mk.injEq]
  refine ⟨?_, ?_, ?_⟩
  · split_ifs <;> omega
  · split_ifs <;> omega
  · omega

end Instants

end DbtNova.InstantRendering
