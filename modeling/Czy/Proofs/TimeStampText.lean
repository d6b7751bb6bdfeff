import Czy.Proofs.LogTime
import Czy.Sanity.TimeText

/-! The texts of a `TimeStamp`: `to_formatted_string` sorts as the times do and gives the
time back, and so does `to_string`. -/

namespace Czy.TimeStamp

open Columns Logger Logging TimeZone

def Printable (t : TimeStamp) : Prop :=
  0 ≤ t.microSinceEpoch ∧ t.microSinceEpoch < 253402300800 * 10 ^ 6

instance (t : TimeStamp) : Decidable t.Printable := inferInstanceAs (Decidable (_ ∧ _))

def dateTimeColumns : List (ℕ × ℕ) := [(0, 4), (0, 2), (0, 2), (1, 2), (1, 2), (1, 2)]

def ofFormatted (text : List UInt8) : TimeStamp :=
  match readColumns (dateTimeColumns ++ [(1, 6)]) text with
  | [y, mon, d, h, min, s, us] =>
    ⟨(fromFields (y : ℤ) (mon : ℤ) (d : ℤ) (h : ℤ) (min : ℤ) (s : ℤ)).value * 1000000 + us⟩
  | _ => ⟨0⟩

def ofString (text : List UInt8) : TimeStamp :=
  match CString.cutAt 46 text with
  | some (s, us) => ⟨(readNumber s : ℤ) * 1000000 + readNumber us⟩
  | none => ⟨0⟩

variable {t t' : TimeStamp} {time time' : Gregorian.Time} {gmtimeR : ℤ → LocalTm}

theorem micro_eq (t : TimeStamp) :
    t.microSinceEpoch = t.secondsSinceEpoch * 1000000 + t.microSeconds := by
  have h := Int.mul_tdiv_add_tmod t.microSinceEpoch 1000000
  change t.microSinceEpoch = t.microSinceEpoch.tdiv 1000000 * 1000000 + t.microSinceEpoch.tmod 1000000
  omega

theorem microSeconds_range (h : 0 ≤ t.microSinceEpoch) : 0 ≤ t.microSeconds ∧ t.microSeconds < 10 ^ 6 :=
  ⟨Int.tmod_nonneg _ h, Int.tmod_lt_of_pos _ (by decide)⟩

theorem lt_iff (h : 0 ≤ t.microSinceEpoch) (h' : 0 ≤ t'.microSinceEpoch) :
    t < t' ↔ t.secondsSinceEpoch < t'.secondsSinceEpoch ∨
      t.secondsSinceEpoch = t'.secondsSinceEpoch ∧ t.microSeconds < t'.microSeconds := by
  have hus := microSeconds_range h
  have hus' := microSeconds_range h'
  change t.microSinceEpoch < t'.microSinceEpoch ↔ _
  rw [t.micro_eq, t'.micro_eq]
  omega

theorem secondsSinceEpoch_range (h : t.Printable) :
    0 ≤ t.secondsSinceEpoch ∧ t.secondsSinceEpoch < 253402300800 := by
  have hus := microSeconds_range h.1
  have hmicro := t.micro_eq
  obtain ⟨hlo, hhi⟩ := h
  constructor <;> omega

theorem exists_time (hgmtime : Gmtime gmtimeR) (h : t.Printable) :
    ∃ time : Gregorian.Time, time.seconds = t.secondsSinceEpoch ∧ FourDigits time.date.year ∧
      1000 ≤ time.date.year ∧
      dateTimeText (gmtimeR t.secondsSinceEpoch).toTm = timeText time := by
  obtain ⟨hlo, hhi⟩ := secondsSinceEpoch_range h
  obtain ⟨time, hseconds, hshows⟩ := hgmtime t.secondsSinceEpoch (by omega) (by omega)
  have hyear : 1000 ≤ time.date.year := le_year (by omega)
  have hlast := (year_lt_iff time).2 (by omega)
  have hdiv := time.seconds_div
  exact ⟨time, hseconds, ⟨by omega, by omega⟩, hyear,
    dateTimeText_of_shows hshows (by omega) (by omega)⟩

theorem length_time (hyear : 1000 ≤ time.date.year) (hfour : FourDigits time.date.year) :
    (timeText time).length = 17 :=
  (length_timeText_iff hyear).2 hfour.2

theorem length_micro (h : 0 ≤ t.microSinceEpoch) : (formatInt true 6 t.microSeconds).length = 6 :=
  length_formatInt (by decide) (microSeconds_range h).1 (microSeconds_range h).2

theorem toFormattedString_eq (hgmtime : Gmtime gmtimeR) (h : t.Printable) :
    ∃ time : Gregorian.Time, time.seconds = t.secondsSinceEpoch ∧ FourDigits time.date.year ∧
      1000 ≤ time.date.year ∧ (timeText time).length = 17 ∧
      t.toFormattedString gmtimeR true = timeText time ++ (46 :: formatInt true 6 t.microSeconds) ∧
      t.toFormattedString gmtimeR false = timeText time := by
  obtain ⟨time, hseconds, hfour, hyear, htext⟩ := exists_time hgmtime h
  have hlength := length_time hyear hfour
  refine ⟨time, hseconds, hfour, hyear, hlength, ?_, ?_⟩
  · simp only [toFormattedString, htext, printed, if_true]
    apply List.take_of_length_le
    rw [List.length_append, List.length_cons, hlength, length_micro h.1]
    decide
  · simp only [toFormattedString, htext, printed, Bool.false_eq_true, if_false]
    apply List.take_of_length_le
    rw [hlength]
    decide

theorem split_timeText (hfour : FourDigits time.date.year) (columns : List (ℕ × ℕ)) (rest : List UInt8) :
    split (dateTimeColumns ++ columns) (timeText time ++ rest) =
      [formatInt false 4 time.date.year, formatInt true 2 time.date.month, formatInt true 2 time.date.day,
        formatInt true 2 time.hour, formatInt true 2 time.minute, formatInt true 2 time.second] ++
        split columns rest := by
  obtain ⟨⟨hmonth, hday⟩, hhour, hminute, hsecond⟩ := twoDigits_fields time
  have hyear : (formatInt false 4 time.date.year).length = 4 :=
    length_formatInt_blanks (by decide) hfour.1 hfour.2
  simp only [dateTimeColumns, timeText, List.append_assoc, List.cons_append, List.nil_append]
  rw [split_column hyear, split_column (length_two hmonth), split_column (length_two hday),
    split_separated (length_two hhour), split_separated (length_two hminute),
    split_separated (length_two hsecond)]

theorem fromFields_time (time : Gregorian.Time) (hlo : 0 ≤ time.seconds)
    (hhi : time.seconds < 253402300800) :
    (fromFields (time.date.year : CInt) (time.date.month : CInt) (time.date.day : CInt)
      (time.hour : CInt) (time.minute : CInt) (time.second : CInt)).value = time.seconds := by
  have hdiv := time.seconds_div
  have hyear : -4800 ≤ time.date.year ∧ time.date.year ≤ 1500000 :=
    year_range (by omega) (by omega)
  have hvalid := time.valid
  obtain ⟨hmonth, hday⟩ := time.date.valid
  have hlength := Gregorian.monthLength_pos time.date.year time.date.month
  exact (fromFields_is ⟨Checked.of_is (by omega), Checked.of_is (by omega), Checked.of_is (by omega)⟩
    (Checked.of_is (by omega)) (Checked.of_is (by omega)) (Checked.of_is (by omega)) (by omega)
    (by omega)).1

theorem ofFormatted_timeText (hlo : 0 ≤ time.seconds) (hhi : time.seconds < 253402300800)
    (hfour : FourDigits time.date.year) {rest : List UInt8} {us : ℕ}
    (hrest : readColumns [(1, 6)] rest = [us]) :
    ofFormatted (timeText time ++ rest) = ⟨time.seconds * 1000000 + us⟩ := by
  obtain ⟨⟨hmonth, hday⟩, hhour, hminute, hsecond⟩ := twoDigits_fields time
  have hcolumns : readColumns (dateTimeColumns ++ [(1, 6)]) (timeText time ++ rest) =
      [time.date.year.natAbs, time.date.month.natAbs, time.date.day.natAbs, time.hour.natAbs,
        time.minute.natAbs, time.second.natAbs, us] := by
    rw [readColumns, split_timeText hfour, List.map_append, ← readColumns, hrest]
    simp only [List.map_cons, List.map_nil, readNumber_filled hfour.1, readNumber_zeros hmonth.1,
      readNumber_zeros hday.1, readNumber_zeros hhour.1, readNumber_zeros hminute.1,
      readNumber_zeros hsecond.1]
    rfl
  rw [ofFormatted, hcolumns]
  simp only [Int.natAbs_of_nonneg hfour.1, Int.natAbs_of_nonneg hmonth.1, Int.natAbs_of_nonneg hday.1,
    Int.natAbs_of_nonneg hhour.1, Int.natAbs_of_nonneg hminute.1, Int.natAbs_of_nonneg hsecond.1,
    fromFields_time time hlo hhi]

theorem readColumns_micro (h : 0 ≤ t.microSinceEpoch) :
    readColumns [(1, 6)] (46 :: formatInt true 6 t.microSeconds) = [t.microSeconds.natAbs] := by
  rw [readColumns, split_last (length_micro h), split]
  simp only [List.map_cons, List.map_nil, readNumber_zeros (microSeconds_range h).1]

theorem point_not_mem {v : ℤ} (hv : 0 ≤ v) : (46 : UInt8) ∉ formatInt false 0 v := by
  rw [formatInt_filled hv, Nat.zero_sub, List.replicate_zero, List.nil_append, List.mem_map]
  rintro ⟨d, hd, hpoint⟩
  have hne : ∀ d < 10, LogStream.digitChar d ≠ 46 := by decide
  exact hne d ((Numeral.numeral_isNumeral (by decide) _).digits d hd) hpoint

theorem ofString_toString (h : 0 ≤ t.microSinceEpoch) (h' : t.microSinceEpoch < 2 ^ 63) :
    ofString t.toString = t := by
  have hmicro := t.micro_eq
  have hus := microSeconds_range h
  have hseconds : 0 ≤ t.secondsSinceEpoch := by omega
  have hlength : (formatInt false 0 t.secondsSinceEpoch).length ≤ 13 := by
    rw [formatInt_filled hseconds, Nat.zero_sub, List.replicate_zero, List.nil_append, List.length_map]
    exact Numeral.numeral_length_le (by decide) (by decide) (by omega)
  have hfits : t.toString =
      formatInt false 0 t.secondsSinceEpoch ++ (46 :: formatInt true 6 t.microSeconds) := by
    apply List.take_of_length_le
    rw [List.length_append, List.length_cons, length_micro h]
    omega
  rw [hfits, ofString, CString.cutAt_append (point_not_mem hseconds)]
  simp only [readNumber_filled hseconds, readNumber_zeros hus.1, Int.natAbs_of_nonneg hseconds,
    Int.natAbs_of_nonneg hus.1, ← hmicro]

/-- The formatted texts sort as the timestamps do, by the microsecond or by the second, and
are read back to what they show; so is the plain text of a timestamp of any year. -/
theorem texts_sort_and_read (hgmtime : Gmtime gmtimeR) :
    (∀ t t' : TimeStamp, t.Printable → t'.Printable →
      (t.toFormattedString gmtimeR true < t'.toFormattedString gmtimeR true ↔ t < t') ∧
      (t.toFormattedString gmtimeR false < t'.toFormattedString gmtimeR false ↔
        t.secondsSinceEpoch < t'.secondsSinceEpoch) ∧
      ofFormatted (t.toFormattedString gmtimeR true) = t ∧
      ofFormatted (t.toFormattedString gmtimeR false) = ⟨t.secondsSinceEpoch * 1000000⟩) ∧
    ∀ t : TimeStamp, 0 ≤ t.microSinceEpoch → t.microSinceEpoch < 2 ^ 63 → ofString t.toString = t := by
  refine ⟨fun t t' h h' => ?_, fun t => ofString_toString⟩
  obtain ⟨time, hseconds, hfour, hyear, hlength, hlong, hshort⟩ := toFormattedString_eq hgmtime h
  obtain ⟨time', hseconds', hfour', hyear', hlength', hlong', hshort'⟩ := toFormattedString_eq hgmtime h'
  have hus := microSeconds_range h.1
  have hus' := microSeconds_range h'.1
  have hrange := secondsSinceEpoch_range h
  have hread : ∀ {rest : List UInt8} {us : ℕ}, readColumns [(1, 6)] rest = [us] →
      ofFormatted (timeText time ++ rest) = ⟨time.seconds * 1000000 + us⟩ :=
    ofFormatted_timeText (by omega) (by omega) hfour
  have hnothing : readColumns [(1, 6)] [] = [0] := rfl
  rw [hlong, hlong', hshort, hshort']
  refine ⟨?_, ?_, ?_, ?_⟩
  · have hsame : timeText time = timeText time' ↔ t.secondsSinceEpoch = t'.secondsSinceEpoch := by
      rw [← hseconds, ← hseconds', Gregorian.Time.seconds_injective.eq_iff]
      exact ⟨timeText_inj hyear hyear', congrArg timeText⟩
    rw [append_lt_append_iff (hlength.trans hlength'.symm), timeText_lt_iff hfour hfour',
      cons_lt_cons_same, formatInt_zeros_lt_iff (by decide) hus.1 hus.2 hus'.1 hus'.2, hsame,
      lt_iff h.1 h'.1, hseconds, hseconds']
  · rw [timeText_lt_iff hfour hfour', hseconds, hseconds']
  · rw [hread (readColumns_micro h.1), hseconds, Int.natAbs_of_nonneg hus.1, ← t.micro_eq]
  · rw [← List.append_nil (timeText time), hread hnothing, hseconds, Nat.cast_zero,
      Int.add_zero]

theorem texts_sort_and_read_9999 :
    let gmtimeR := fun s : ℤ => (⟨toUtcTime s true, 0⟩ : LocalTm)
    ofFormatted (toFormattedString gmtimeR ⟨253402300799999999⟩ true) = ⟨253402300799999999⟩ ∧
      ofString (toString ⟨253402300800000000⟩) = ⟨253402300800000000⟩ :=
  ⟨((texts_sort_and_read gmtime_toUtcTime).1 _ ⟨0⟩ (by decide) (by decide)).2.2.1,
    (texts_sort_and_read gmtime_toUtcTime).2 _ (by decide) (by decide)⟩

end Czy.TimeStamp
