import Czy.Sanity.Date

/-! Julian day numbers: `getYearMonthDay` is the inverse of `getJulianDayNumber`,
and the numbers count the days of the calendar one by one. -/

namespace Czy

/-- The two conversions are inverse to each other, without any overflow. -/
theorem julianDay_calendar_inverse :
    (∀ n : ℤ, -32044 ≤ n → n ≤ 536838867 →
      (∃ date : Gregorian.Date, (getYearMonthDay n).Is date) ∧
      (getJulianDayNumber (getYearMonthDay n).year (getYearMonthDay n).month
        (getYearMonthDay n).day).Is n) ∧
    ∀ date : Gregorian.Date, -32044 ≤ date.dayNumber → date.dayNumber ≤ 536838867 →
      (getJulianDayNumber date.year date.month date.day).Is date.dayNumber ∧
      (getYearMonthDay (getJulianDayNumber date.year date.month date.day)).Is date := by
  constructor
  · intro n hlo hhi
    obtain ⟨date, rfl, hymd⟩ := getYearMonthDay_is hlo hhi
    refine ⟨⟨date, hymd⟩, ?_⟩
    rw [hymd.eq_of hlo hhi]
    exact julianDayOf_is hlo hhi
  · intro date hlo hhi
    have hjulian := julianDayOf_is hlo hhi
    refine ⟨hjulian, ?_⟩
    obtain ⟨date', hnumber, hymd⟩ := getYearMonthDay_is hlo hhi
    obtain rfl := Gregorian.Date.dayNumber_injective hnumber
    rw [← hjulian.eq_of (by omega)] at hymd
    exact hymd

theorem julianDay_calendar_inverse_leapDay :
    (getYearMonthDay (2451604 : ℤ)).Is ⟨2000, 2, 29, by decide⟩ ∧
    (∃ date : Gregorian.Date, (getYearMonthDay (536838867 : ℤ)).Is date) := by
  have hnumber : (getJulianDayNumber 2000 2 29 : CInt) = (2451604 : ℤ) := by decide
  have hdate := (julianDay_calendar_inverse.2 ⟨2000, 2, 29, by decide⟩ (by decide) (by decide)).2
  exact ⟨hnumber ▸ hdate, (julianDay_calendar_inverse.1 536838867 (by decide) le_rfl).1⟩

/-- The numbers count the days: of consecutive days they are consecutive, `operator<` is
the order of the calendar, and the day of the week advances by one. -/
theorem julianDay_counts_days :
    (∀ date : Gregorian.Date, firstDay.key ≤ date.key →
      (julianDayOf date).ok = true → (julianDayOf date.next).ok = true →
      (julianDayOf date.next).value = (julianDayOf date).value + 1 ∧
      (0 ≤ (julianDayOf date).value →
        (Date.ofYearMonthDay date.next.year date.next.month date.next.day).weekDay.Is
          (((Date.ofYearMonthDay date.year date.month date.day).weekDay.value + 1) % 7))) ∧
    (∀ date date' : Gregorian.Date, firstDay.key ≤ date.key → firstDay.key ≤ date'.key →
      (julianDayOf date).ok = true → (julianDayOf date').ok = true →
      (Date.ofYearMonthDay date.year date.month date.day <
        Date.ofYearMonthDay date'.year date'.month date'.day ↔ date.key < date'.key)) ∧
    (Date.ofYearMonthDay 1970 1 1).weekDay = 4 := by
  refine ⟨fun date hfirst hok hok' => ?_, fun date date' hfirst hfirst' hok hok' => ?_, by decide⟩
  · have hnext : date.next.dayNumber = date.dayNumber + 1 := date.dayNumber_next
    have hfirst' : firstDay.key ≤ date.next.key := by
      rw [firstDay_le_iff] at hfirst ⊢
      omega
    have hvalue := julianDayOf_value hfirst
    have hvalue' := julianDayOf_value hfirst'
    refine ⟨by omega, fun hnonneg => ?_⟩
    have hlt := getJulianDayNumber_lt (⟨hvalue', hok'⟩ : (julianDayOf date.next).Is _)
    have hweek := Date.weekDay_is (.ofYearMonthDay date.year date.month date.day)
      ⟨hvalue, hok⟩ (by omega) (by omega)
    have hweek' := Date.weekDay_is (.ofYearMonthDay date.next.year date.next.month date.next.day)
      ⟨hvalue', hok'⟩ (by omega) (by omega)
    have hmod : (date.next.dayNumber + 1) % 7 = ((date.dayNumber + 1) % 7 + 1) % 7 := by omega
    rw [hweek.1, ← hmod]
    exact hweek'
  · change (julianDayOf date).value < (julianDayOf date').value ↔ _
    rw [julianDayOf_value hfirst, julianDayOf_value hfirst', Gregorian.Date.dayNumber_lt_iff]

theorem julianDay_counts_days_1900 :
    let feb : Gregorian.Date := ⟨1900, 2, 28, by decide⟩
    let mar : Gregorian.Date := ⟨1900, 3, 1, by decide⟩
    feb.next = mar ∧ (julianDayOf mar).value = (julianDayOf feb).value + 1 ∧
    Date.ofYearMonthDay 1900 2 28 < Date.ofYearMonthDay 1900 3 1 := by
  have hnext : Gregorian.Date.next ⟨1900, 2, 28, by decide⟩ = ⟨1900, 3, 1, by decide⟩ := by decide
  have hle : firstDay.key ≤ Gregorian.Date.key ⟨1900, 2, 28, by decide⟩ := by decide
  have hle' : firstDay.key ≤ Gregorian.Date.key ⟨1900, 3, 1, by decide⟩ := by decide
  refine ⟨hnext, ?_, ?_⟩
  · rw [← hnext]
    exact (julianDay_counts_days.1 _ hle (by decide) (by decide)).1
  · exact (julianDay_counts_days.2.1 _ _ hle hle' (by decide) (by decide)).2 (by decide)

end Czy
