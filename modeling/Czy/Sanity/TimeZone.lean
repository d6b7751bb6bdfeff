import Czy.Sanity.Date
import Czy.Spec.TimeZone

/-! base/time_zone.cpp: the truncated quotient and remainder of a negative time are
brought to floor form, and the fields are those of the time. -/

namespace Czy

/-- The fields show a time, each computed without an overflow. -/
structure Tm.Shows (utc : Tm) (time : Gregorian.Time) : Prop where
  year : utc.year.Is (time.date.year - 1900)
  mon : utc.mon.Is (time.date.month - 1)
  mday : utc.mday.Is time.date.day
  hour : utc.hour.Is time.hour
  min : utc.min.Is time.minute
  sec : utc.sec.Is time.second

theorem kSecondsPerDay_is : kSecondsPerDay.Is 86400 := ⟨by decide, by decide⟩

theorem julianDayOf19700101_is : Date.julianDayOf19700101.Is 2440588 := ⟨by decide, by decide⟩

/-- A remainder that is negative is corrected to floor form. -/
theorem floor_of_neg {t b : ℤ} (hb : 0 < b) (h : t.tmod b < 0) :
    t / b = t.tdiv b - 1 ∧ t % b = t.tmod b + b := by
  have hlo := Int.lt_tmod_of_pos t hb
  have hsum := Int.mul_tdiv_add_tmod t b
  refine (Int.ediv_emod_unique hb).2 ⟨?_, by omega, by omega⟩
  rw [mul_sub]
  omega

/-- Any other is in floor form. -/
theorem floor_of_nonneg {t b : ℤ} (hb : 0 < b) (h : ¬ t.tmod b < 0) :
    t / b = t.tdiv b ∧ t % b = t.tmod b := by
  have hhi := Int.tmod_lt_of_pos t hb
  have hsum := Int.mul_tdiv_add_tmod t b
  exact (Int.ediv_emod_unique hb).2 ⟨by omega, by omega, hhi⟩

namespace TimeZone

def secondsOf (secondsSinceEpoch : TimeT) : CInt :=
  let seconds : CInt := (secondsSinceEpoch % kSecondsPerDay.widen _).narrow _
  if seconds.value < 0 then seconds + kSecondsPerDay else seconds

def daysOf (secondsSinceEpoch : TimeT) : CInt :=
  let seconds : CInt := (secondsSinceEpoch % kSecondsPerDay.widen _).narrow _
  let days : CInt := (secondsSinceEpoch / kSecondsPerDay.widen _).narrow _
  if seconds.value < 0 then days - 1 else days

def fieldsOf (seconds days : CInt) (yday : Bool) : Tm :=
  let utc := fillHMS (unsignedOfInt seconds) .zero
  let date : Date := ⟨days + Date.julianDayOf19700101⟩
  let ymd := date.yearMonthDay
  let utc := { utc with year := ymd.year - 1900, mon := ymd.month - 1, mday := ymd.day,
                        wday := date.weekDay }
  if yday then
    { utc with yday := date.julianDayNumber - (Date.ofYearMonthDay ymd.year 1 1).julianDayNumber }
  else utc

theorem toUtcTime_eq (t : TimeT) (yday : Bool) :
    toUtcTime t yday = fieldsOf (secondsOf t) (daysOf t) yday := by
  simp only [toUtcTime, fieldsOf, secondsOf, daysOf]

variable {t : ℤ}

theorem split_is (hlo : -2147483647 ≤ t / 86400) (hhi : t / 86400 < 2147483647) :
    (secondsOf t).Is (t % 86400) ∧ (daysOf t).Is (t / 86400) := by
  have hrem : -86400 < t.tmod 86400 ∧ t.tmod 86400 < 86400 :=
    ⟨Int.lt_tmod_of_pos t (by decide), Int.tmod_lt_of_pos t (by decide)⟩
  have hsum := Int.mul_tdiv_add_tmod t 86400
  have ht : Checked.Is (t : TimeT) t := Checked.of_is (by omega)
  have hday : Checked.Is (kSecondsPerDay.widen 9223372036854775808) 86400 := kSecondsPerDay_is
  have hseconds := (ht.mod hday (by decide) (by omega)).narrow (N := 2147483648) (by omega) (by omega)
  have hdays := (ht.div hday (by decide) (by omega)).narrow (N := 2147483648) (by omega) (by omega)
  simp only [secondsOf, daysOf, hseconds.1]
  split_ifs with hneg
  · obtain ⟨hdiv, hmod⟩ := floor_of_neg (by decide) hneg
    rw [hdiv, hmod]
    exact ⟨hseconds.add kSecondsPerDay_is (by omega), hdays.sub (lit_is 1 (by decide)) (by omega)⟩
  · obtain ⟨hdiv, hmod⟩ := floor_of_nonneg (by decide) hneg
    rw [hdiv, hmod]
    exact ⟨hseconds, hdays⟩

end TimeZone

theorem fillHMS_is {x : CInt} {n : ℤ} (hx : x.Is n) (h : 0 ≤ n ∧ n < 86400) (utc : Tm) :
    (fillHMS (unsignedOfInt x) utc).hour.Is (n / 3600) ∧
    (fillHMS (unsignedOfInt x) utc).min.Is (n / 60 % 60) ∧
    (fillHMS (unsignedOfInt x) utc).sec.Is (n % 60) := by
  have hu : Checked.Is (unsignedOfInt x) n := by
    obtain ⟨rfl, hok⟩ := hx
    exact ⟨Int.emod_eq_of_lt h.1 (by omega), hok⟩
  have hlit : Checked.Is (60 : CUnsigned) 60 := Checked.lit_is 60 (by decide)
  have hminutes := hu.div_of_nonneg hlit h.1 (by decide) (by omega)
  have hhour : n / 3600 = n / 60 / 60 := by omega
  rw [hhour]
  refine ⟨?_, ?_, ?_⟩
  · exact (hminutes.div_of_nonneg hlit (by omega) (by decide) (by omega)).narrow (by omega) (by omega)
  · exact (hminutes.mod_of_nonneg hlit (by omega) (by decide) (by omega)).narrow (by omega) (by omega)
  · exact (hu.mod_of_nonneg hlit h.1 (by decide) (by omega)).narrow (by omega) (by omega)

theorem firstOfYear_is {year : CInt} {date : Gregorian.Date} (h : year.Is date.year)
    (hlo : -31738 ≤ date.dayNumber) (hhi : date.dayNumber ≤ 536838867) :
    (Date.ofYearMonthDay year 1 1).julianDayNumber.Is (Gregorian.dayNumber date.year 1 1) := by
  have hyear := year_range (by omega) hhi
  rw [h.eq_of (by omega)]
  refine getJulianDayNumber_is (by decide) (by decide) ?_ (by omega)
  -- the day before the range is the last one of −4800
  have hlast : Gregorian.Date.key ⟨-4800, 12, 31, by decide⟩ < date.key :=
    Gregorian.Date.dayNumber_lt_iff.1 (lt_of_lt_of_le (by decide) hlo)
  have hkey := Gregorian.Date.key_lt_iff.1 hlast
  have hm := date.valid.1.2
  have hd := date.valid.2.2
  have hlen := Gregorian.monthLength_pos date.year date.month
  simp only at hkey
  omega

namespace TimeZone

theorem fieldsOf_date (seconds days : CInt) (yday : Bool) :
    (fieldsOf seconds days yday).year =
      (getYearMonthDay (days + Date.julianDayOf19700101)).year - 1900 ∧
    (fieldsOf seconds days yday).mon =
      (getYearMonthDay (days + Date.julianDayOf19700101)).month - 1 ∧
    (fieldsOf seconds days yday).mday =
      (getYearMonthDay (days + Date.julianDayOf19700101)).day := by
  cases yday <;> simp only [fieldsOf, Date.yearMonthDay, if_true, and_self, Bool.false_eq_true, if_false]

theorem fieldsOf_clock (seconds days : CInt) (yday : Bool) :
    (fieldsOf seconds days yday).hour = (fillHMS (unsignedOfInt seconds) .zero).hour ∧
    (fieldsOf seconds days yday).min = (fillHMS (unsignedOfInt seconds) .zero).min ∧
    (fieldsOf seconds days yday).sec = (fillHMS (unsignedOfInt seconds) .zero).sec := by
  cases yday <;> simp only [fieldsOf, if_true, and_self, Bool.false_eq_true, if_false]

theorem fieldsOf_yday (seconds days : CInt) :
    (fieldsOf seconds days true).yday = days + Date.julianDayOf19700101 -
      (Date.ofYearMonthDay (getYearMonthDay (days + Date.julianDayOf19700101)).year 1 1).julianDayNumber := by
  simp only [fieldsOf, Date.yearMonthDay, if_true]

theorem fieldsOf_is {seconds days : CInt} {s n : ℤ} {date : Gregorian.Date} (hs : seconds.Is s)
    (hrange : 0 ≤ s ∧ s < 86400) (hn : days.Is n) (hdate : date.dayNumber = n + 2440588)
    (hlo : -31738 ≤ n + 2440588) (hhi : n + 2440588 ≤ 536838867) :
    (∀ yday, (fieldsOf seconds days yday).Shows
      ⟨date, s / 3600, s / 60 % 60, s % 60, by omega⟩) ∧
    (fieldsOf seconds days true).yday.Is date.dayOfYear := by
  have hnumber := hn.add julianDayOf19700101_is (by omega)
  obtain ⟨date', hdate', hymd⟩ := getYearMonthDay_is (n := n + 2440588) (by omega) hhi
  obtain rfl := Gregorian.Date.dayNumber_injective (hdate'.trans hdate.symm)
  rw [← hnumber.eq_of (by omega)] at hymd
  generalize hread : getYearMonthDay (days + Date.julianDayOf19700101) = ymd at hymd
  obtain ⟨hy, hm, hd⟩ := hymd
  have hyear : -4800 ≤ date'.year ∧ date'.year ≤ 1500000 := year_range (by omega) (by omega)
  have hmonth := date'.valid.1
  have h1900 : Checked.Is (1900 : CInt) 1900 := lit_is 1900 (by decide)
  have h1 : Checked.Is (1 : CInt) 1 := lit_is 1 (by decide)
  constructor
  · intro yday
    obtain ⟨eyear, emon, emday⟩ := fieldsOf_date seconds days yday
    obtain ⟨ehour, emin, esec⟩ := fieldsOf_clock seconds days yday
    obtain ⟨hhour, hmin, hsec⟩ := fillHMS_is hs hrange .zero
    refine ⟨?_, ?_, ?_, ehour ▸ hhour, emin ▸ hmin, esec ▸ hsec⟩
    · rw [eyear, hread]
      exact hy.sub h1900 (by omega)
    · rw [emon, hread]
      exact hm.sub h1 (by omega)
    · rw [emday, hread]
      exact hd
  · have hfirst := firstOfYear_is hy (by omega) (by omega)
    have hrange := date'.dayOfYear_range
    have hlen := Gregorian.monthLength_pos date'.year 2
    have hsub := date'.dayNumber_sub_first
    rw [Gregorian.yearLength] at hrange
    rw [← hsub] at hrange ⊢
    rw [hdate] at hrange ⊢
    rw [fieldsOf_yday, hread]
    exact hnumber.sub hfirst (by omega)

/-- `to_utc_time` shows the time, with the day of the year where it is asked for. -/
theorem toUtcTime_is (hlo : -31738 ≤ t / 86400 + 2440588) (hhi : t / 86400 + 2440588 ≤ 536838867) :
    ∃ time : Gregorian.Time, time.seconds = t ∧ (∀ yday, (toUtcTime t yday).Shows time) ∧
      (toUtcTime t true).yday.Is time.date.dayOfYear := by
  obtain ⟨hseconds, hdays⟩ := split_is (t := t) (by omega) (by omega)
  obtain ⟨date, hdate, -⟩ := getYearMonthDay_is (n := t / 86400 + 2440588) (by omega) hhi
  have hfields := fieldsOf_is hseconds (by omega) hdays hdate hlo hhi
  simp only [← toUtcTime_eq] at hfields
  refine ⟨_, ?_, hfields⟩
  simp only [Gregorian.Time.seconds, Gregorian.Time.secondOfDay, hdate]
  omega

theorem fromFields_is {year month day hour minute seconds : CInt} {time : Gregorian.Time}
    (hymd : YearMonthDay.Is ⟨year, month, day⟩ time.date) (hhour : hour.Is time.hour)
    (hminute : minute.Is time.minute) (hseconds : seconds.Is time.second)
    (hlo : -32044 ≤ time.date.dayNumber) (hhi : time.date.dayNumber ≤ 536838867) :
    (fromFields year month day hour minute seconds).Is time.seconds := by
  have hclock := time.valid
  have hdate : (Date.ofYearMonthDay year month day).julianDayNumber.Is time.date.dayNumber := by
    have heq := hymd.eq_of hlo hhi
    simp only [YearMonthDay.mk.injEq] at heq
    obtain ⟨rfl, rfl, rfl⟩ := heq
    exact julianDayOf_is hlo hhi
  have hdays := (hdate.sub julianDayOf19700101_is (by omega)).widen (N := 9223372036854775808)
  have hday : Checked.Is (kSecondsPerDay.widen 9223372036854775808) 86400 := kSecondsPerDay_is
  have hinDay := (((hhour.mul (lit_is 3600 (by decide)) (by omega)).add
    (hminute.mul (lit_is 60 (by decide)) (by omega)) (by omega)).add hseconds (by omega)).widen
    (N := 9223372036854775808)
  have hrange := time.secondOfDay_range
  exact (hdays.mul hday (by omega)).add hinDay (by omega)

theorem fromUtcTime_is {utc : Tm} {time : Gregorian.Time} (h : utc.Shows time)
    (hlo : -32044 ≤ time.date.dayNumber) (hhi : time.date.dayNumber ≤ 536838867) :
    (fromUtcTime utc).Is time.seconds := by
  have hyear := year_range hlo hhi
  have hmonth := time.date.valid.1
  have isYear := h.year.add (lit_is 1900 (by decide)) (by omega)
  have isMonth := h.mon.add (lit_is 1 (by decide)) (by omega)
  rw [show time.date.year - 1900 + (1900 : ℕ) = time.date.year by omega] at isYear
  rw [show time.date.month - 1 + (1 : ℕ) = time.date.month by omega] at isMonth
  exact fromFields_is ⟨isYear, isMonth, h.mday⟩ h.hour h.min h.sec hlo hhi

end TimeZone

end Czy
