import Czy.Lib.Columns
import Czy.Sanity.Logging
import Czy.Spec.TimeText

/-! The texts of times in columns: each column is in the order of the numbers in it, and so
are the texts in the order of the times. -/

namespace Czy.Logger

open Columns LogStream Numeral

theorem digitChar_lt_iff : ∀ d < 10, ∀ e < 10, digitChar d < digitChar e ↔ d < e := by decide

theorem digitChar_inj : ∀ d < 10, ∀ e < 10, digitChar d = digitChar e ↔ d = e := by decide

theorem blank_lt_digitChar : ∀ d < 10, 32 < digitChar d := by decide

variable {v w : ℤ} {width : ℕ}

theorem natAbs_lt_pow (hv : 0 ≤ v) (hlt : v < 10 ^ width) : v.natAbs < 10 ^ width := by
  zify
  rwa [abs_of_nonneg hv]

theorem formatInt_zeros_lt_iff (hwidth : 0 < width) (hv : 0 ≤ v) (hv' : v < 10 ^ width) (hw : 0 ≤ w)
    (hw' : w < 10 ^ width) : formatInt true width v < formatInt true width w ↔ v < w := by
  have hdigits : ∀ n, ∀ d ∈ padded 10 width n, d < 10 := fun n d hd => padded_lt (by decide) hd
  rw [formatInt_zeros hv, formatInt_zeros hw,
    map_lt_map_iff (fun d hd e he => digitChar_lt_iff d (hdigits _ d hd) e (hdigits _ e he))
      fun d hd e he => digitChar_inj d (hdigits _ d hd) e (hdigits _ e he),
    padded_lt_padded_iff (by decide) hwidth (natAbs_lt_pow hv hv') (natAbs_lt_pow hw hw')]
  omega

theorem formatInt_filled (hv : 0 ≤ v) (width : ℕ) : formatInt false width v =
    List.replicate (width - (numeral 10 v.natAbs).length) 32 ++ (numeral 10 v.natAbs).map digitChar := by
  unfold formatInt
  simp only [if_neg (not_lt.2 hv), List.nil_append, List.length_map, Bool.false_eq_true, if_false]
  rfl

theorem formatInt_blanks_lt_iff (hwidth : 0 < width) (hv : 0 ≤ v) (hv' : v < 10 ^ width) (hw : 0 ≤ w)
    (hw' : w < 10 ^ width) : formatInt false width v < formatInt false width w ↔ v < w := by
  rw [formatInt_filled hv, formatInt_filled hw,
    filled_lt_filled_iff (by decide) digitChar_lt_iff digitChar_inj blank_lt_digitChar
      (numeral_length_le (by decide) hwidth (natAbs_lt_pow hv hv'))
      (numeral_length_le (by decide) hwidth (natAbs_lt_pow hw hw'))]
  omega

theorem length_formatInt_blanks (hwidth : 0 < width) (hv : 0 ≤ v) (hlt : v < 10 ^ width) :
    (formatInt false width v).length = width := by
  have hle := numeral_length_le (b := 10) (by decide) hwidth (natAbs_lt_pow hv hlt)
  rw [formatInt_filled hv, List.length_append, List.length_replicate, List.length_map]
  omega

/-- A blank is read as a zero. -/
theorem readNumber_filled (hv : 0 ≤ v) (width : ℕ) :
    readNumber (formatInt false width v) = v.natAbs := by
  have hblanks : (List.replicate (width - (numeral 10 v.natAbs).length) (32 : UInt8)).map
      (fun c => c.toNat - 48) = List.replicate (width - (numeral 10 v.natAbs).length) 0 := by
    rw [List.map_replicate]
    rfl
  rw [readNumber, formatInt_filled hv, List.map_append, hblanks,
    map_value digitChar_value (numeral_isNumeral (by decide) _).digits, read_replicate_append,
    (numeral_isNumeral (by decide) _).value]

/-- A column of zeros and digits, and what is behind it. -/
theorem zeros_append_lt (hwidth : 0 < width) (hv : 0 ≤ v) (hv' : v < 10 ^ width) (hw : 0 ≤ w)
    (hw' : w < 10 ^ width) (s t : List UInt8) :
    formatInt true width v ++ s < formatInt true width w ++ t ↔ v < w ∨ v = w ∧ s < t := by
  rw [append_lt_append_iff ((length_formatInt hwidth hv hv').trans (length_formatInt hwidth hw hw').symm),
    formatInt_zeros_lt_iff hwidth hv hv' hw hw']
  refine or_congr_right (and_congr_left fun _ => ⟨fun h => ?_, fun h => by rw [h]⟩)
  have hread := congrArg readNumber h
  rw [readNumber_zeros hv, readNumber_zeros hw] at hread
  omega

theorem blanks_append_lt (hwidth : 0 < width) (hv : 0 ≤ v) (hv' : v < 10 ^ width) (hw : 0 ≤ w)
    (hw' : w < 10 ^ width) (s t : List UInt8) :
    formatInt false width v ++ s < formatInt false width w ++ t ↔ v < w ∨ v = w ∧ s < t := by
  rw [append_lt_append_iff ((length_formatInt_blanks hwidth hv hv').trans
    (length_formatInt_blanks hwidth hw hw').symm), formatInt_blanks_lt_iff hwidth hv hv' hw hw']
  refine or_congr_right (and_congr_left fun _ => ⟨fun h => ?_, fun h => by rw [h]⟩)
  have hread := congrArg readNumber h
  rw [readNumber_filled hv, readNumber_filled hw] at hread
  omega

theorem two_append_lt (hv : TwoDigits v) (hw : TwoDigits w) (s t : List UInt8) :
    formatInt true 2 v ++ s < formatInt true 2 w ++ t ↔ v < w ∨ v = w ∧ s < t :=
  zeros_append_lt (by decide) hv.1 hv.2 hw.1 hw.2 s t

theorem two_lt (hv : TwoDigits v) (hw : TwoDigits w) :
    formatInt true 2 v < formatInt true 2 w ↔ v < w :=
  formatInt_zeros_lt_iff (by decide) hv.1 hv.2 hw.1 hw.2

/-- A year of at most four digits. -/
def FourDigits (year : ℤ) : Prop := 0 ≤ year ∧ year < 10 ^ 4

theorem year_append_lt (hv : FourDigits v) (hw : FourDigits w) (s t : List UInt8) :
    formatInt false 4 v ++ s < formatInt false 4 w ++ t ↔ v < w ∨ v = w ∧ s < t :=
  blanks_append_lt (by decide) hv.1 hv.2 hw.1 hw.2 s t

/-- The numbers in the columns of a text. -/
def readColumns (columns : List (ℕ × ℕ)) (text : List UInt8) : List ℕ :=
  (split columns text).map readNumber

/-- The text of a time is in the order of the times. -/
theorem timeText_lt_iff {time time' : Gregorian.Time} (h : FourDigits time.date.year)
    (h' : FourDigits time'.date.year) :
    timeText time < timeText time' ↔ time.seconds < time'.seconds := by
  obtain ⟨⟨hmonth, hday⟩, hhour, hminute, hsecond⟩ := twoDigits_fields time
  obtain ⟨⟨hmonth', hday'⟩, hhour', hminute', hsecond'⟩ := twoDigits_fields time'
  rw [Gregorian.Time.seconds_lt_iff, Gregorian.Date.key_lt_iff, ← Gregorian.Date.key_injective.eq_iff,
    Gregorian.Date.key, Gregorian.Date.key]
  unfold timeText
  simp only [List.cons_append, year_append_lt h h', two_append_lt hmonth hmonth',
    two_append_lt hday hday', two_append_lt hhour hhour', two_append_lt hminute hminute',
    two_lt hsecond hsecond', cons_lt_cons_same, EmbeddingLike.apply_eq_iff_eq, Prod.mk.injEq]
  omega

def nameText (time : Gregorian.Time) : List UInt8 :=
  46 :: (formatInt false 0 time.date.year ++ (formatInt true 2 time.date.month ++
    (formatInt true 2 time.date.day ++ (45 :: (formatInt true 2 time.hour ++
      (formatInt true 2 time.minute ++ formatInt true 2 time.second))))))

theorem timeBuf_of_shows {tm : Tm} {time : Gregorian.Time} (h : tm.Shows time)
    (hlo : -32044 ≤ time.date.dayNumber) (hhi : time.date.dayNumber ≤ 536838867) :
    LogFile.timeBuf tm = nameText time := by
  have hyear := year_range hlo hhi
  have hmonth := time.date.valid.1
  have isYear := h.year.add (lit_is 1900 (by decide)) (by omega)
  have isMonth := h.mon.add (lit_is 1 (by decide)) (by omega)
  rw [show time.date.year - 1900 + (1900 : ℕ) = time.date.year by omega] at isYear
  rw [show time.date.month - 1 + (1 : ℕ) = time.date.month by omega] at isMonth
  rw [LogFile.timeBuf, nameText, isYear.1, isMonth.1, h.mday.1, h.hour.1, h.min.1, h.sec.1]

theorem formatInt_year (hyear : 1000 ≤ v) : formatInt false 0 v = formatInt false 4 v := by
  have hfour : 4 ≤ (numeral 10 v.natAbs).length :=
    (lt_length_numeral_iff (k := 3) (by decide) (by decide)).2 (by omega)
  rw [formatInt_blanks (by omega) (Nat.zero_le _), formatInt_blanks (by omega) hfour]

section

variable {time time' : Gregorian.Time}

theorem length_nameText (hyear : 1000 ≤ time.date.year) (h : FourDigits time.date.year) :
    (nameText time).length = 16 := by
  obtain ⟨⟨hmonth, hday⟩, hhour, hminute, hsecond⟩ := twoDigits_fields time
  simp only [nameText, formatInt_year hyear, List.length_append, List.length_cons,
    length_formatInt_blanks (by decide) h.1 h.2, length_two hmonth, length_two hday,
    length_two hhour, length_two hminute, length_two hsecond]

theorem nameText_lt_iff (hyear : 1000 ≤ time.date.year) (hyear' : 1000 ≤ time'.date.year)
    (h : FourDigits time.date.year) (h' : FourDigits time'.date.year) :
    nameText time < nameText time' ↔ time.seconds < time'.seconds := by
  obtain ⟨⟨hmonth, hday⟩, hhour, hminute, hsecond⟩ := twoDigits_fields time
  obtain ⟨⟨hmonth', hday'⟩, hhour', hminute', hsecond'⟩ := twoDigits_fields time'
  rw [Gregorian.Time.seconds_lt_iff, Gregorian.Date.key_lt_iff, ← Gregorian.Date.key_injective.eq_iff,
    Gregorian.Date.key, Gregorian.Date.key]
  simp only [nameText, formatInt_year hyear, formatInt_year hyear', year_append_lt h h',
    two_append_lt hmonth hmonth', two_append_lt hday hday', two_append_lt hhour hhour',
    two_append_lt hminute hminute', two_lt hsecond hsecond', cons_lt_cons_same,
    EmbeddingLike.apply_eq_iff_eq, Prod.mk.injEq]
  omega

end

end Czy.Logger
