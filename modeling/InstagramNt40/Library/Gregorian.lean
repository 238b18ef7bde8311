import Mathlib.Algebra.BigOperators.Intervals
import Mathlib.Algebra.Order.BigOperators.Group.Finset
import Mathlib.Algebra.Order.SuccPred
import Mathlib.Data.Int.ConditionallyCompleteOrder
import Mathlib.Data.Int.SuccPred
import Mathlib.Tactic.IntervalCases

/-!
# The proleptic Gregorian calendar

Dates, the number of days from 1970-01-01 to a date, and times of day. Days and seconds
before 1970 are negative, and the year before the year 1 is the year 0.
-/
namespace Gregorian

/-! ### Years and months -/

/-- The rule of 4, 100 and 400. -/
def Leap (y : Int) : Prop := y % 4 = 0 ∧ (y % 100 ≠ 0 ∨ y % 400 = 0)

instance (y : Int) : Decidable (Leap y) := inferInstanceAs (Decidable (_ ∧ _))

def yearLength (y : Int) : Nat := if Leap y then 366 else 365

/-- The days of a month, January being 1. -/
def monthLength (y : Int) (m : Nat) : Nat :=
  if m = 2 then if Leap y then 29 else 28
  else if m = 4 ∨ m = 6 ∨ m = 9 ∨ m = 11 then 30
  else 31

/-- The days from 1970-01-01 to the first day of a year. -/
def yearStart (y : Int) : Int :=
  365 * (y - 1) + (y - 1) / 4 - (y - 1) / 100 + (y - 1) / 400 - 719162

theorem yearStart_epoch : yearStart 1970 = 0 := rfl

theorem yearStart_succ (y : Int) : yearStart (y + 1) = yearStart y + yearLength y := by
  unfold yearStart yearLength
  by_cases leap : Leap y
  · rw [if_pos leap]
    unfold Leap at leap
    omega
  · rw [if_neg leap]
    unfold Leap at leap
    omega

/-- The days of a year before a month. -/
def monthStart (y : Int) (m : Nat) : Nat := ∑ k ∈ Finset.Ico 1 m, monthLength y k

theorem monthStart_succ (y : Int) {m : Nat} (positive : 1 ≤ m) :
    monthStart y (m + 1) = monthStart y m + monthLength y m :=
  Finset.sum_Ico_succ_top positive _

theorem monthStart_year (y : Int) : monthStart y 13 = yearLength y := by
  unfold monthStart monthLength yearLength
  simp [Finset.sum_Ico_succ_top]
  split_ifs <;> rfl

/-! ### Dates -/

structure Date where
  year : Int
  month : Nat
  day : Nat
  deriving DecidableEq

structure Date.Valid (d : Date) : Prop where
  month : 1 ≤ d.month ∧ d.month ≤ 12
  day : 1 ≤ d.day ∧ d.day ≤ monthLength d.year d.month

/-- The days from 1970-01-01 to a date. -/
def daysFromCivil (d : Date) : Int := yearStart d.year + monthStart d.year d.month + d.day - 1

/-- Of consecutive intervals only one has a given point in it. -/
theorem interval_unique {ι : Type} [LinearOrder ι] [SuccOrder ι] {start : ι → Int}
    (mono : Monotone start) {i j : ι} {n : Int}
    (inI : start i ≤ n ∧ n < start (Order.succ i)) (inJ : start j ≤ n ∧ n < start (Order.succ j)) :
    i = j := by
  by_contra other
  rcases lt_or_gt_of_ne other with less | less
  · have next := mono (Order.succ_le_of_lt less)
    omega
  · have next := mono (Order.succ_le_of_lt less)
    omega

theorem yearStart_mono : Monotone yearStart :=
  monotone_int_of_le_succ fun y => by
    rw [yearStart_succ]
    omega

theorem monthStart_mono (y : Int) : Monotone fun m => (monthStart y m : Int) := fun m n le => by
  have subset : Finset.Ico 1 m ⊆ Finset.Ico 1 n := Finset.Ico_subset_Ico_right le
  exact Int.ofNat_le.mpr (Finset.sum_le_sum_of_subset subset)

/-- The day is in its year. -/
theorem Date.Valid.year_interval {d : Date} (valid : d.Valid) :
    yearStart d.year ≤ daysFromCivil d ∧ daysFromCivil d < yearStart (d.year + 1) := by
  obtain ⟨⟨first, last⟩, low, high⟩ := valid
  have inYear : monthStart d.year d.month + monthLength d.year d.month ≤ yearLength d.year := by
    rw [← monthStart_succ _ first, ← monthStart_year]
    exact Int.ofNat_le.mp (monthStart_mono d.year (Nat.succ_le_succ last))
  rw [yearStart_succ]
  unfold daysFromCivil
  omega

theorem Date.Valid.month_interval {d : Date} (valid : d.Valid) :
    (monthStart d.year d.month : Int) ≤ daysFromCivil d - yearStart d.year ∧
      daysFromCivil d - yearStart d.year < (monthStart d.year (d.month + 1) : Int) := by
  obtain ⟨⟨first, -⟩, low, high⟩ := valid
  rw [monthStart_succ _ first]
  unfold daysFromCivil
  omega

/-- A day has one date. -/
theorem daysFromCivil_unique {d d' : Date} (valid : d.Valid) (valid' : d'.Valid)
    (same : daysFromCivil d = daysFromCivil d') : d = d' := by
  -- the year is known from the day, then the month from the day of the year
  have year : d.year = d'.year := interval_unique yearStart_mono valid.year_interval
    (same ▸ valid'.year_interval)
  have month : d.month = d'.month := by
    have here := valid'.month_interval
    rw [← same, ← year] at here
    exact interval_unique (monthStart_mono d.year) valid.month_interval here
  have day : d.day = d'.day := by
    unfold daysFromCivil at same
    rw [year, month] at same
    omega
  cases d
  cases d'
  subst year month day
  rfl

/-- The day of the week, Sunday being 0: the first of January 1970 was a Thursday. -/
def weekday (days : Int) : Int := (days + 4) % 7

/-! ### Years that begin in March -/

/-- The days from 0000-03-01 to the first of March of a year. -/
def marchStart (y : Int) : Int := 365 * y + y / 4 - y / 100 + y / 400

/-- The days of such a year before a month, March being 0. -/
def marchMonthStart (m : Nat) : Nat := (153 * m + 2) / 5

/-- January and February belong to the year before. -/
def Date.marchYear (d : Date) : Int := if d.month ≤ 2 then d.year - 1 else d.year

def Date.marchMonth (d : Date) : Nat := (d.month + 9) % 12

theorem monthStart_march (y : Int) {m : Nat} (first : 3 ≤ m) (last : m ≤ 12) :
    monthStart y m = 59 + (if Leap y then 1 else 0) + marchMonthStart (m - 3) := by
  unfold monthStart marchMonthStart
  by_cases leap : Leap y
  · interval_cases m <;> simp [Finset.sum_Ico_succ_top, monthLength, leap]
  · interval_cases m <;> simp [Finset.sum_Ico_succ_top, monthLength, leap]

theorem marchStart_eq (y : Int) :
    marchStart y - 719468 = yearStart y + 59 + if Leap y then 1 else 0 := by
  unfold marchStart yearStart
  by_cases leap : Leap y
  · rw [if_pos leap]
    unfold Leap at leap
    omega
  · rw [if_neg leap]
    unfold Leap at leap
    omega

theorem marchStart_succ (y : Int) :
    marchStart (y + 1) = marchStart y + 365 + if Leap (y + 1) then 1 else 0 := by
  unfold marchStart
  by_cases leap : Leap (y + 1)
  · rw [if_pos leap]
    unfold Leap at leap
    omega
  · rw [if_neg leap]
    unfold Leap at leap
    omega

/-- After 400 years the calendar begins again. -/
theorem marchStart_era (y era : Int) :
    marchStart (y + era * 400) = marchStart y + era * 146097 := by
  unfold marchStart
  omega

theorem leap_era (y era : Int) : Leap (y + era * 400) ↔ Leap y := by
  unfold Leap
  omega

theorem daysFromCivil_march {d : Date} (month : 1 ≤ d.month ∧ d.month ≤ 12) :
    daysFromCivil d =
      marchStart d.marchYear + marchMonthStart d.marchMonth + d.day - 1 - 719468 := by
  obtain ⟨first, last⟩ := month
  unfold daysFromCivil Date.marchYear Date.marchMonth
  by_cases early : d.month ≤ 2
  -- the leap day of the year before is already counted
  · rw [if_pos early]
    have start := yearStart_succ (d.year - 1)
    rw [Int.sub_add_cancel] at start
    have days : yearStart d.year = marchStart (d.year - 1) - 719468 + 306 := by
      rw [start, marchStart_eq]
      unfold yearLength
      split_ifs <;> omega
    rw [days]
    interval_cases month : d.month
    · rw [show monthStart d.year 1 = 0 from rfl, show marchMonthStart _ = 306 from rfl]
      omega
    · rw [show monthStart d.year 2 = 31 from rfl, show marchMonthStart _ = 337 from rfl]
      omega
  · have index : (d.month + 9) % 12 = d.month - 3 := by omega
    have eq := marchStart_eq d.year
    rw [if_neg early, index, monthStart_march _ (by omega) last]
    push_cast
    omega

/-! ### Days to dates -/

/-- The year of a day of an era, 400 years from March on. -/
def yearOfEra (e : Nat) : Nat := (e - e / 1460 + e / 36524 - e / 146096) / 365

/-- The days of an era by their century, their four years, their year and the day in it. -/
theorem yearOfEra_eq {c q s r : Nat} (century : c < 4) (four : q < 25) (year : s < 4)
    (day : r < 365 ∨ r = 365 ∧ s = 3) (leapless : r = 365 → q < 24) :
    yearOfEra (36524 * c + 1461 * q + 365 * s + r) = 100 * c + 4 * q + s := by
  generalize days : 36524 * c + 1461 * q + 365 * s + r = e
  have centuries : e / 36524 = c := by omega
  have eras : e / 146096 = 0 := by omega
  have fours : e / 1460 = 25 * c + q + (24 * c + q + 365 * s + r) / 1460 := by omega
  unfold yearOfEra
  rw [centuries, eras, fours]
  -- the leap days before it carry over only in a last year
  have carry : (24 * c + q + 365 * s + r) / 1460 = 0 ∨
      (24 * c + q + 365 * s + r) / 1460 = 1 ∧ s = 3 ∧ 0 < r := by omega
  rcases carry with none | ⟨one, rfl, positive⟩
  · rw [none]
    omega
  · rw [one]
    omega

theorem eraDay_parts {e : Nat} (inEra : e < 146096) :
    ∃ c q s r, c < 4 ∧ q < 25 ∧ s < 4 ∧ (r < 365 ∨ r = 365 ∧ s = 3) ∧ (r = 365 → q < 24) ∧
      36524 * c + 1461 * q + 365 * s + r = e := by
  refine ⟨e / 36524, e % 36524 / 1461, min (e % 36524 % 1461 / 365) 3,
    e % 36524 % 1461 - 365 * min (e % 36524 % 1461 / 365) 3, ?_, ?_, ?_, ?_, ?_, ?_⟩ <;> omega

/-- The days of an era are in their years. -/
theorem yearOfEra_march {e : Nat} (inEra : e < 146097) :
    yearOfEra e < 400 ∧ marchStart (yearOfEra e) ≤ e ∧ e < marchStart (yearOfEra e + 1) := by
  -- the last day of an era is the only leap day that ends a century
  by_cases last : e = 146096
  · subst last
    decide
  · obtain ⟨c, q, s, r, century, four, year, day, leapless, rfl⟩ := eraDay_parts (e := e) (by omega)
    rw [yearOfEra_eq century four year day leapless]
    have fours : ((100 * c + 4 * q + s : Nat) : Int) / 4 = 25 * c + q := by omega
    have centuries : ((100 * c + 4 * q + s : Nat) : Int) / 100 = c := by omega
    have eras : ((100 * c + 4 * q + s : Nat) : Int) / 400 = 0 := by omega
    refine ⟨by omega, ?_, ?_⟩
    · unfold marchStart
      rw [fours, centuries, eras]
      omega
    · unfold marchStart
      omega

/-- The month of a day of the year, from March on. -/
def monthOfYear (d : Nat) : Nat := (5 * d + 2) / 153

theorem monthOfYear_march (d : Nat) :
    marchMonthStart (monthOfYear d) ≤ d ∧ d < marchMonthStart (monthOfYear d + 1) := by
  unfold marchMonthStart monthOfYear
  omega

/-- The month from January on of a month from March on. -/
def calendarMonth (mp : Nat) : Nat := if mp < 10 then mp + 3 else mp - 9

/-- The date of a day in a year from March on. -/
def marchDate (y : Int) (doy : Nat) : Date :=
  let month := calendarMonth (monthOfYear doy)
  { year := if month ≤ 2 then y + 1 else y
    month
    day := doy - marchMonthStart (monthOfYear doy) + 1 }

theorem marchDate_marchYear (y : Int) (doy : Nat) : (marchDate y doy).marchYear = y := by
  simp only [Date.marchYear, marchDate]
  split_ifs <;> omega

/-- A month but February is as long as it is from its start to the next. -/
theorem monthLength_march (y : Int) {mp : Nat} (early : mp < 11) :
    marchMonthStart (mp + 1) = marchMonthStart mp + monthLength y (calendarMonth mp) := by
  interval_cases mp <;> rfl

section MarchDate

variable {y : Int} {doy : Nat} (inYear : doy < 365 + if Leap (y + 1) then 1 else 0)

include inYear

theorem monthOfYear_lt : monthOfYear doy < 12 := by
  unfold monthOfYear
  split_ifs at inYear <;> omega

theorem marchDate_valid : (marchDate y doy).Valid := by
  have last := monthOfYear_lt inYear
  obtain ⟨low, high⟩ := monthOfYear_march doy
  have month : 1 ≤ calendarMonth (monthOfYear doy) ∧ calendarMonth (monthOfYear doy) ≤ 12 := by
    unfold calendarMonth
    split_ifs <;> omega
  refine ⟨month, Nat.succ_pos _, ?_⟩
  show doy - marchMonthStart (monthOfYear doy) + 1 ≤
    monthLength (marchDate y doy).year (calendarMonth (monthOfYear doy))
  by_cases early : monthOfYear doy < 11
  · rw [monthLength_march (marchDate y doy).year early] at high
    omega
  -- February has what is left of the year
  · have february : monthOfYear doy = 11 := by omega
    have year : (marchDate y doy).year = y + 1 := by rw [marchDate, february]; rfl
    have length : monthLength (y + 1) 2 = 28 + if Leap (y + 1) then 1 else 0 := by
      rw [monthLength, if_pos rfl]
      split_ifs <;> rfl
    rw [year, february, show marchMonthStart 11 = 337 from rfl, show calendarMonth 11 = 2 from rfl,
      length]
    omega

theorem daysFromCivil_marchDate :
    daysFromCivil (marchDate y doy) = marchStart y + doy - 719468 := by
  have last := monthOfYear_lt inYear
  obtain ⟨low, -⟩ := monthOfYear_march doy
  have month : (marchDate y doy).marchMonth = monthOfYear doy := by
    simp only [Date.marchMonth, marchDate, calendarMonth]
    split_ifs <;> omega
  have day : (marchDate y doy).day = doy - marchMonthStart (monthOfYear doy) + 1 := rfl
  rw [daysFromCivil_march (marchDate_valid inYear).month, marchDate_marchYear, month, day]
  omega

end MarchDate

/-- The date of a day: its era of 400 years, its year in that and its day in the year. -/
def civilFromDays (days : Int) : Date :=
  let z := days + 719468
  let e := (z % 146097).toNat
  let y := yearOfEra e
  marchDate (y + z / 146097 * 400) (e - marchStart y).toNat

theorem civilFromDays_spec (days : Int) :
    (civilFromDays days).Valid ∧ daysFromCivil (civilFromDays days) = days := by
  obtain ⟨-, start, before⟩ := yearOfEra_march (e := ((days + 719468) % 146097).toNat) (by omega)
  unfold civilFromDays
  dsimp only
  have day : (((days + 719468) % 146097).toNat : Int) = (days + 719468) % 146097 := by omega
  generalize ((days + 719468) % 146097).toNat = e at *
  -- the year within its era and the year itself are leap years together
  have leap := leap_era (yearOfEra e + 1) ((days + 719468) / 146097)
  have inYear : (e - marchStart (yearOfEra e)).toNat <
      365 + if Leap (yearOfEra e + (days + 719468) / 146097 * 400 + 1) then 1 else 0 := by
    rw [add_right_comm, if_congr leap rfl rfl]
    rw [marchStart_succ] at before
    split_ifs at before ⊢ <;> omega
  refine ⟨marchDate_valid inYear, ?_⟩
  rw [daysFromCivil_marchDate inYear, marchStart_era]
  omega

/-! ### Times -/

structure DateTime where
  date : Date
  hour : Nat
  minute : Nat
  second : Nat
  deriving DecidableEq

structure DateTime.Valid (t : DateTime) : Prop where
  date : t.date.Valid
  hour : t.hour ≤ 23
  minute : t.minute ≤ 59
  second : t.second ≤ 59

/-- The seconds from 1970-01-01 on. -/
def DateTime.seconds (t : DateTime) : Int :=
  daysFromCivil t.date * 86400 + t.hour * 3600 + t.minute * 60 + t.second

theorem DateTime.seconds_unique {t t' : DateTime} (valid : t.Valid) (valid' : t'.Valid)
    (same : t.seconds = t'.seconds) : t = t' := by
  obtain ⟨date, hour, minute, second⟩ := valid
  obtain ⟨date', hour', minute', second'⟩ := valid'
  unfold DateTime.seconds at same
  have day : t.date = t'.date := daysFromCivil_unique date date' (by omega)
  rw [day] at same
  cases t
  cases t'
  dsimp only at *
  subst day
  congr 1 <;> omega

/-- The date and the time of a second. -/
def DateTime.ofSeconds (secs : Int) : DateTime :=
  let rem := (secs % 86400).toNat
  { date := civilFromDays (secs / 86400)
    hour := rem / 3600
    minute := rem / 60 % 60
    second := rem % 60 }

theorem DateTime.ofSeconds_valid (secs : Int) : (ofSeconds secs).Valid := by
  have day : (secs % 86400).toNat < 86400 := by omega
  refine ⟨(civilFromDays_spec _).1, ?_, ?_, ?_⟩ <;> simp only [ofSeconds] <;> omega

theorem DateTime.seconds_ofSeconds (secs : Int) : (ofSeconds secs).seconds = secs := by
  simp only [seconds, ofSeconds]
  rw [(civilFromDays_spec _).2]
  omega

end Gregorian
