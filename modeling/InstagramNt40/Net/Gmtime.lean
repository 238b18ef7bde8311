import InstagramNt40.Library.Gregorian

/-!
# `mbedtls_platform_gmtime_r` of net/mbedtls_platform_nt4.c

The date and the time of day of a 64-bit `time_t`. The signed arithmetic stays in range;
the unsigned one is that of 64-bit words.
-/
namespace InstagramNt40.Gmtime

open Gregorian

/-- `struct tm` -/
structure Tm where
  tmSec : Int
  tmMin : Int
  tmHour : Int
  tmMday : Int
  tmMon : Int
  tmYear : Int
  tmWday : Int
  tmYday : Int
  tmIsdst : Int
  deriving DecidableEq

/-- `(int)` -/
def toInt (x : Int) : Int := x.bmod (2 ^ 32)

def mbedtlsPlatformGmtimeR (tt : Int64) : Tm :=
  let secs := tt.toInt
  let days := secs.tdiv 86400
  let rem := secs.tmod 86400
  let (rem, days) := if rem < 0 then (rem + 86400, days - 1) else (rem, days)
  let sec := toInt (rem.tmod 60)
  let rem := rem.tdiv 60
  let minu := toInt (rem.tmod 60)
  let rem := rem.tdiv 60
  let hour := toInt rem
  let z := days + 719468
  let era := (if z ≥ 0 then z else z - 146096).tdiv 146097
  let doe := UInt64.ofInt (z - era * 146097)
  let yoe := (doe - doe / 1460 + doe / 36524 - doe / 146096) / 365
  let year := yoe.toInt64.toInt + era * 400
  let doy := doe - (365 * yoe + yoe / 4 - yoe / 100)
  let mp := (5 * doy + 2) / 153
  let day := doy - (153 * mp + 2) / 5 + 1
  -- the constant -9 is a large number
  let mon := mp + (if mp < 10 then 3 else -9)
  let year := if mon ≤ 2 then year + 1 else year
  let wday := toInt ((days.tmod 7 + 7 + 4).tmod 7)
  { tmSec := sec
    tmMin := minu
    tmHour := hour
    tmMday := toInt day.toNat
    tmMon := toInt mon.toNat - 1
    tmYear := toInt (year - 1900)
    tmWday := wday
    tmYday := 0
    tmIsdst := 0 }

/-! ### Signed quotients -/

/-- A quotient is cut off towards zero; the remainder has the sign of the dividend. -/
theorem tdiv_tmod (a : Int) {b : Int} (positive : 0 < b) :
    b * a.tdiv b + a.tmod b = a ∧ -b < a.tmod b ∧ a.tmod b < b ∧
      (0 ≤ a → 0 ≤ a.tmod b) ∧ (a ≤ 0 → a.tmod b ≤ 0) :=
  ⟨Int.mul_tdiv_add_tmod a b, Int.lt_tmod_of_pos a positive, Int.tmod_lt_of_pos a positive,
    Int.tmod_nonneg b, fun negative => by
      have opposite := Int.tmod_nonneg b (Int.neg_nonneg_of_nonpos negative)
      rw [Int.neg_tmod] at opposite
      omega⟩

/-- The remainder is brought to the range of a day. -/
theorem day_split (secs : Int) :
    (if secs.tmod 86400 < 0 then (secs.tmod 86400 + 86400, secs.tdiv 86400 - 1)
      else (secs.tmod 86400, secs.tdiv 86400)) = (secs % 86400, secs / 86400) := by
  obtain ⟨parts, low, high, sign⟩ := tdiv_tmod secs (b := 86400) (by decide)
  split_ifs with negative
  · exact Prod.ext (by dsimp only; omega) (by dsimp only; omega)
  · exact Prod.ext (by dsimp only; omega) (by dsimp only; omega)

theorem era_split (z : Int) : (if z ≥ 0 then z else z - 146096).tdiv 146097 = z / 146097 := by
  split_ifs with positive
  · exact Int.tdiv_eq_ediv_of_nonneg positive
  · obtain ⟨parts, low, high, sign⟩ := tdiv_tmod (z - 146096) (b := 146097) (by decide)
    omega

theorem weekday_eq (days : Int) : (days.tmod 7 + 7 + 4).tmod 7 = weekday days := by
  obtain ⟨parts, low, high, sign⟩ := tdiv_tmod days (b := 7) (by decide)
  rw [Int.tmod_eq_emod_of_nonneg (by omega)]
  unfold weekday
  omega

/-! ### Unsigned words -/

section Words

theorem toNat_sub {a b : UInt64} (le : b.toNat ≤ a.toNat) : (a - b).toNat = a.toNat - b.toNat :=
  UInt64.toNat_sub_of_le a b (UInt64.le_iff_toNat_le.mpr le)

theorem toNat_add {a b : UInt64} (small : a.toNat + b.toNat < 2 ^ 64) :
    (a + b).toNat = a.toNat + b.toNat := by
  rw [UInt64.toNat_add, Nat.mod_eq_of_lt small]

theorem toNat_mul {a b : UInt64} (small : a.toNat * b.toNat < 2 ^ 64) :
    (a * b).toNat = a.toNat * b.toNat := by
  rw [UInt64.toNat_mul, Nat.mod_eq_of_lt small]

theorem yoe_toNat {doe : UInt64} (small : doe.toNat < 146097) :
    ((doe - doe / 1460 + doe / 36524 - doe / 146096) / 365).toNat = yearOfEra doe.toNat := by
  have fours : (doe / 1460).toNat = doe.toNat / 1460 := UInt64.toNat_div _ _
  have centuries : (doe / 36524).toNat = doe.toNat / 36524 := UInt64.toNat_div _ _
  have eras : (doe / 146096).toNat = doe.toNat / 146096 := UInt64.toNat_div _ _
  have first : (doe - doe / 1460).toNat = doe.toNat - doe.toNat / 1460 := by
    rw [toNat_sub (by omega), fours]
  have second : (doe - doe / 1460 + doe / 36524).toNat =
      doe.toNat - doe.toNat / 1460 + doe.toNat / 36524 := by
    rw [toNat_add (by omega), first, centuries]
  rw [UInt64.toNat_div, toNat_sub (by omega), second, eras]
  rfl

/-- The day of the year, the year being in its era. -/
theorem doy_toNat {doe yoe : UInt64} (young : yoe.toNat < 400)
    (start : marchStart yoe.toNat ≤ doe.toNat) :
    (doe - (365 * yoe + yoe / 4 - yoe / 100)).toNat =
      (doe.toNat - marchStart yoe.toNat).toNat := by
  have product : (365 * yoe).toNat = 365 * yoe.toNat := toNat_mul (by simp; omega)
  have fours : (yoe / 4).toNat = yoe.toNat / 4 := UInt64.toNat_div _ _
  have centuries : (yoe / 100).toNat = yoe.toNat / 100 := UInt64.toNat_div _ _
  have sum : (365 * yoe + yoe / 4).toNat = 365 * yoe.toNat + yoe.toNat / 4 := by
    rw [toNat_add (by omega), product, fours]
  have days : (365 * yoe + yoe / 4 - yoe / 100).toNat =
      365 * yoe.toNat + yoe.toNat / 4 - yoe.toNat / 100 := by
    rw [toNat_sub (by omega), sum, centuries]
  unfold marchStart at start ⊢
  rw [toNat_sub (by omega), days]
  omega

theorem mp_toNat {doy : UInt64} (small : doy.toNat < 366) :
    ((5 * doy + 2) / 153).toNat = monthOfYear doy.toNat := by
  have two : (2 : UInt64).toNat = 2 := rfl
  have product : (5 * doy).toNat = 5 * doy.toNat := toNat_mul (by simp; omega)
  have sum : (5 * doy + 2).toNat = 5 * doy.toNat + 2 := by
    rw [toNat_add (by omega), product, two]
  rw [UInt64.toNat_div, sum]
  rfl

theorem day_toNat {doy mp : UInt64} (small : doy.toNat < 366)
    (start : marchMonthStart mp.toNat ≤ doy.toNat) :
    (doy - (153 * mp + 2) / 5 + 1).toNat = doy.toNat - marchMonthStart mp.toNat + 1 := by
  unfold marchMonthStart at start ⊢
  have one : (1 : UInt64).toNat = 1 := rfl
  have two : (2 : UInt64).toNat = 2 := rfl
  have product : (153 * mp).toNat = 153 * mp.toNat := toNat_mul (by simp; omega)
  have sum : (153 * mp + 2).toNat = 153 * mp.toNat + 2 := by
    rw [toNat_add (by omega), product, two]
  have before : ((153 * mp + 2) / 5).toNat = (153 * mp.toNat + 2) / 5 := by
    rw [UInt64.toNat_div, sum]
    rfl
  have rest : (doy - (153 * mp + 2) / 5).toNat = doy.toNat - (153 * mp.toNat + 2) / 5 := by
    rw [toNat_sub (by omega), before]
  rw [toNat_add (by omega), rest, one]

/-- The constant -9 wraps around. -/
theorem mon_toNat {mp : UInt64} (small : mp.toNat < 12) :
    (mp + if mp < 10 then 3 else -9).toNat = calendarMonth mp.toNat := by
  have early : mp < 10 ↔ mp.toNat < 10 := UInt64.lt_iff_toNat_lt
  unfold calendarMonth
  split_ifs with word number
  · have three : (3 : UInt64).toNat = 3 := rfl
    rw [toNat_add (by omega), three]
  · exact absurd (early.mp word) number
  · exact absurd (early.mpr ‹_›) word
  · have last : mp = 10 ∨ mp = 11 := by
      rw [← UInt64.toNat_inj, ← UInt64.toNat_inj]
      simp only [UInt64.reduceToNat]
      omega
    rcases last with rfl | rfl <;> rfl

/-- The words hold the date of the day. -/
theorem date_words (days : Int) :
    let z := days + 719468
    let doe := UInt64.ofInt (z - z / 146097 * 146097)
    let yoe := (doe - doe / 1460 + doe / 36524 - doe / 146096) / 365
    let year := yoe.toInt64.toInt + z / 146097 * 400
    let doy := doe - (365 * yoe + yoe / 4 - yoe / 100)
    let mp := (5 * doy + 2) / 153
    let mon := mp + if mp < 10 then 3 else -9
    (if mon ≤ 2 then year + 1 else year) = (civilFromDays days).year ∧
      mon.toNat = (civilFromDays days).month ∧
      (doy - (153 * mp + 2) / 5 + 1).toNat = (civilFromDays days).day := by
  intro z doe yoe year doy mp mon
  -- the day of the era is small, so that only the -9 wraps around
  have inEra : doe.toNat = (z % 146097).toNat := by
    show (UInt64.ofInt (z - z / 146097 * 146097)).toNat = _
    rw [UInt64.ofInt, UInt64.toNat_ofNat']
    omega
  have yearEq : yoe.toNat = yearOfEra doe.toNat := yoe_toNat (by omega)
  obtain ⟨young, start, before⟩ := yearOfEra_march (e := doe.toNat) (by omega)
  rw [← yearEq] at young start before
  have dayEq : doy.toNat = (doe.toNat - marchStart yoe.toNat).toNat := doy_toNat young start
  have small : doy.toNat < 366 := by
    rw [marchStart_succ] at before
    split_ifs at before <;> omega
  have monthEq : mp.toNat = monthOfYear doy.toNat := mp_toNat small
  have few : mp.toNat < 12 := by
    rw [monthEq, monthOfYear]
    omega
  have month : mon.toNat = calendarMonth (monthOfYear doy.toNat) := monthEq ▸ mon_toNat few
  have date : civilFromDays days = marchDate (yoe.toNat + z / 146097 * 400) doy.toNat := by
    rw [dayEq, yearEq, inEra]
    rfl
  have signed : yoe.toInt64.toInt = yoe.toNat := by
    show yoe.toBitVec.toInt = _
    rw [BitVec.toInt_eq_toNat_of_lt (by rw [UInt64.toNat_toBitVec]; omega), UInt64.toNat_toBitVec]
  rw [date]
  refine ⟨?_, month, ?_⟩
  · have early : mon ≤ 2 ↔ calendarMonth (monthOfYear doy.toNat) ≤ 2 := by
      rw [UInt64.le_iff_toNat_le, month]
      rfl
    show (if mon ≤ 2 then yoe.toInt64.toInt + z / 146097 * 400 + 1
      else yoe.toInt64.toInt + z / 146097 * 400) = _
    rw [if_congr early rfl rfl, signed]
    rfl
  · rw [day_toNat small (monthEq ▸ (monthOfYear_march doy.toNat).1), monthEq]
    rfl

end Words

/-! ### Exactness -/

theorem toInt_small {x : Int} (low : -2 ^ 31 ≤ x) (high : x < 2 ^ 31) : toInt x = x := by
  unfold toInt
  rw [Int.bmod_eq_of_le] <;> omega

/-- The `struct tm` tells the date and the time. The year is counted from 1900, in an `int`
that wraps around. -/
structure Tells (tm : Tm) (t : DateTime) : Prop where
  sec : tm.tmSec = t.second
  min : tm.tmMin = t.minute
  hour : tm.tmHour = t.hour
  mday : tm.tmMday = t.date.day
  mon : tm.tmMon + 1 = t.date.month
  wday : tm.tmWday = weekday (daysFromCivil t.date)
  year : -2 ^ 31 ≤ t.date.year - 1900 → t.date.year - 1900 < 2 ^ 31 →
    tm.tmYear + 1900 = t.date.year
  yearWrapped : -2 ^ 31 ≤ t.date.year → t.date.year < 2 ^ 31 →
    toInt (tm.tmYear + 1900) = t.date.year

/-- The fields, without truncation but for the year. -/
theorem mbedtlsPlatformGmtimeR_eq (tt : Int64) :
    let t := DateTime.ofSeconds tt.toInt
    mbedtlsPlatformGmtimeR tt =
      { tmSec := t.second
        tmMin := t.minute
        tmHour := t.hour
        tmMday := t.date.day
        tmMon := t.date.month - 1
        tmYear := toInt (t.date.year - 1900)
        tmWday := weekday (daysFromCivil t.date)
        tmYday := 0
        tmIsdst := 0 } := by
  intro t
  obtain ⟨year, month, day⟩ := date_words (tt.toInt / 86400)
  obtain ⟨⟨⟨low, high⟩, first, last⟩, days⟩ := civilFromDays_spec (tt.toInt / 86400)
  unfold mbedtlsPlatformGmtimeR
  dsimp only
  rw [day_split]
  dsimp only
  rw [era_split, year, month, day, weekday_eq]
  have some : 0 ≤ tt.toInt % 86400 := by omega
  rw [Int.tdiv_eq_ediv_of_nonneg some, Int.tmod_eq_emod_of_nonneg some,
    Int.tmod_eq_emod_of_nonneg (by omega), Int.tdiv_eq_ediv_of_nonneg (by omega)]
  have sec : toInt (tt.toInt % 86400 % 60) = t.second := by
    rw [toInt_small (by omega) (by omega)]
    simp only [t, DateTime.ofSeconds]
    omega
  have minu : toInt (tt.toInt % 86400 / 60 % 60) = t.minute := by
    rw [toInt_small (by omega) (by omega)]
    simp only [t, DateTime.ofSeconds]
    omega
  have hour : toInt (tt.toInt % 86400 / 60 / 60) = t.hour := by
    rw [toInt_small (by omega) (by omega)]
    simp only [t, DateTime.ofSeconds]
    omega
  have short : monthLength (civilFromDays (tt.toInt / 86400)).year
      (civilFromDays (tt.toInt / 86400)).month ≤ 31 := by
    unfold monthLength
    split_ifs <;> decide
  have mday : toInt (civilFromDays (tt.toInt / 86400)).day = t.date.day :=
    toInt_small (by omega) (by omega)
  have mon : toInt (civilFromDays (tt.toInt / 86400)).month = t.date.month :=
    toInt_small (by omega) (by omega)
  have wday : toInt (weekday (tt.toInt / 86400)) = weekday (daysFromCivil t.date) := by
    rw [toInt_small (by unfold weekday; omega) (by unfold weekday; omega)]
    exact congrArg weekday days.symm
  rw [sec, minu, hour, mday, mon, wday]
  rfl

theorem mbedtlsPlatformGmtimeR_tells (tt : Int64) :
    Tells (mbedtlsPlatformGmtimeR tt) (.ofSeconds tt.toInt) := by
  rw [mbedtlsPlatformGmtimeR_eq]
  constructor <;> try rfl
  · dsimp only
    omega
  · intro low high
    dsimp only
    rw [toInt_small low high]
    omega
  · intro low high
    dsimp only
    have year := toInt_small low high
    unfold toInt at year ⊢
    rw [Int.bmod_add_bmod, Int.sub_add_cancel, year]

/-- For every 64-bit time: its `struct tm` tells the one valid date and time that is that many
seconds from 1970-01-01. -/
theorem mbedtlsPlatformGmtimeR_exact (tt : Int64) :
    ∃ t : DateTime, t.Valid ∧ t.seconds = tt.toInt ∧
      (∀ t' : DateTime, t'.Valid → t'.seconds = tt.toInt → t' = t) ∧
      Tells (mbedtlsPlatformGmtimeR tt) t := by
  have valid := DateTime.ofSeconds_valid tt.toInt
  have seconds := DateTime.seconds_ofSeconds tt.toInt
  exact ⟨.ofSeconds tt.toInt, valid, seconds,
    fun t' valid' same => DateTime.seconds_unique valid' valid (same.trans seconds.symm),
    mbedtlsPlatformGmtimeR_tells tt⟩

/-- The second before 1970: 1969-12-31, 23:59:59, a Wednesday. -/
example : mbedtlsPlatformGmtimeR (-1) = ⟨59, 59, 23, 31, 11, 69, 3, 0, 0⟩ := by decide

end InstagramNt40.Gmtime
