import Czy.Sanity.TimeText

/-! `Date::to_iso_string`: sorted as text the dates are sorted by time, and the text shows
the date. -/

namespace Czy.Date

open Columns Logger

/-- A day of one of the years 0 to 9999. -/
def ShortYear (julianDayNumber : ℤ) : Prop :=
  Gregorian.dayNumber 0 1 1 ≤ julianDayNumber ∧ julianDayNumber < Gregorian.dayNumber 10000 1 1

instance (n : ℤ) : Decidable (ShortYear n) := inferInstanceAs (Decidable (_ ∧ _))

def isoColumns : List (ℕ × ℕ) := [(0, 4), (1, 2), (1, 2)]

/-- The date that the fields of the text give. -/
def ofIso (text : List UInt8) : Date :=
  match readColumns isoColumns text with
  | [y, m, d] => ofYearMonthDay (y : ℤ) (m : ℤ) (d : ℤ)
  | _ => ⟨0⟩

def isoText (date : Gregorian.Date) : List UInt8 :=
  formatInt false 4 date.year ++ (45 :: (formatInt true 2 date.month ++
    (45 :: formatInt true 2 date.day)))

variable {date date' : Gregorian.Date} {n : ℤ}

theorem twoDigits_date (date : Gregorian.Date) : TwoDigits date.month ∧ TwoDigits date.day := by
  have hvalid := date.valid
  have hlength := Gregorian.monthLength_pos date.year date.month
  unfold Gregorian.Valid at hvalid
  unfold TwoDigits
  omega

theorem shortYear_iff (date : Gregorian.Date) : ShortYear date.dayNumber ↔ FourDigits date.year := by
  have hzero := date.dayNumber_lt_first_iff 0
  have hlast := date.dayNumber_lt_first_iff 10000
  unfold ShortYear FourDigits
  rw [hlast, ← not_lt, hzero, not_lt]
  norm_num

theorem length_isoText (h : FourDigits date.year) : (isoText date).length = 10 := by
  obtain ⟨hmonth, hday⟩ := twoDigits_date date
  simp only [isoText, List.length_append, List.length_cons,
    length_formatInt_blanks (by decide) h.1 h.2, length_two hmonth, length_two hday]

theorem isoText_lt_iff (h : FourDigits date.year) (h' : FourDigits date'.year) :
    isoText date < isoText date' ↔ date.dayNumber < date'.dayNumber := by
  obtain ⟨hmonth, hday⟩ := twoDigits_date date
  obtain ⟨hmonth', hday'⟩ := twoDigits_date date'
  rw [Gregorian.Date.dayNumber_lt_iff, Gregorian.Date.key_lt_iff]
  simp only [isoText, year_append_lt h h', two_append_lt hmonth hmonth', two_lt hday hday',
    cons_lt_cons_same]

theorem readColumns_isoText (h : FourDigits date.year) : readColumns isoColumns (isoText date) =
    [date.year.natAbs, date.month.natAbs, date.day.natAbs] := by
  obtain ⟨hmonth, hday⟩ := twoDigits_date date
  have hyear : (formatInt false 4 date.year).length = 4 := length_formatInt_blanks (by decide) h.1 h.2
  rw [readColumns, isoColumns, isoText, split_column hyear, split_separated (length_two hmonth),
    split_last (length_two hday)]
  simp only [List.map_cons, readNumber_filled h.1, readNumber_zeros hmonth.1, readNumber_zeros hday.1]
  rfl

theorem exists_date (h : ShortYear n) : ∃ date : Gregorian.Date, date.dayNumber = n ∧
    FourDigits date.year ∧ toIsoString ⟨n⟩ = isoText date := by
  have hlo : -32044 ≤ n := le_trans (by decide) h.1
  have hhi : n ≤ 536838867 := le_trans h.2.le (by decide)
  obtain ⟨date, rfl, hymd⟩ := getYearMonthDay_is hlo hhi
  have hyear := (shortYear_iff date).1 h
  refine ⟨date, rfl, hyear, ?_⟩
  have htext : toIsoString ⟨date.dayNumber⟩ = printed 32 (isoText date) := by
    rw [toIsoString, yearMonthDay, hymd.year.1, hymd.month.1, hymd.day.1]
    rfl
  rw [htext, printed, List.take_of_length_le]
  rw [length_isoText hyear]
  decide

/-- The texts have ten characters, sort as the dates do, and give the date back. -/
theorem isoString_sorts_and_reads {m n : ℤ} (hm : ShortYear m) (hn : ShortYear n) :
    (toIsoString ⟨m⟩).length = 10 ∧
      (toIsoString ⟨m⟩ < toIsoString ⟨n⟩ ↔ (⟨m⟩ : Date) < ⟨n⟩) ∧
      ofIso (toIsoString ⟨m⟩) = ⟨m⟩ := by
  obtain ⟨date, rfl, hyear, htext⟩ := exists_date hm
  obtain ⟨date', rfl, hyear', htext'⟩ := exists_date hn
  rw [htext, htext']
  refine ⟨length_isoText hyear, isoText_lt_iff hyear hyear', ?_⟩
  have hlo : -32044 ≤ date.dayNumber := le_trans (by decide) hm.1
  have hhi : date.dayNumber ≤ 536838867 := le_trans hm.2.le (by decide)
  have hjulian := (julianDayOf_is hlo hhi).eq_of (by omega)
  obtain ⟨hmonth, hday⟩ := twoDigits_date date
  rw [ofIso, readColumns_isoText hyear]
  simp only [Int.natAbs_of_nonneg hyear.1, Int.natAbs_of_nonneg hmonth.1, Int.natAbs_of_nonneg hday.1]
  exact congrArg Date.mk hjulian

theorem isoString_sorts_and_reads_999 :
    (toIsoString ⟨(2086302 : ℤ)⟩).length = 10 ∧
      (toIsoString ⟨(2086302 : ℤ)⟩ < toIsoString ⟨(2086303 : ℤ)⟩ ↔
        (⟨(2086302 : ℤ)⟩ : Date) < ⟨(2086303 : ℤ)⟩) ∧
      ofIso (toIsoString ⟨(2086302 : ℤ)⟩) = ⟨(2086302 : ℤ)⟩ :=
  isoString_sorts_and_reads (by decide) (by decide)

end Czy.Date
