import Czy.Sanity.LogStream
import Czy.Sanity.TimeZone
import Czy.Sanity.ZoneData
import Czy.Spec.Logging

/-! The text of the time of a log line: what it shows can be read back from it, and it has 17
characters as long as the year has four digits. -/

namespace Czy.Logger

open LogStream Numeral

theorem formatInt_zeros {v : ℤ} (hv : 0 ≤ v) (width : ℕ) :
    formatInt true width v = (padded 10 width v.natAbs).map digitChar := by
  unfold formatInt padded
  simp only [if_neg (not_lt.2 hv), List.nil_append, List.length_map, if_true, List.map_append,
    List.map_replicate]
  rfl

/-- The year fills its four places. -/
theorem formatInt_blanks {v : ℤ} {width : ℕ} (hv : 0 ≤ v) (hwidth : width ≤ (numeral 10 v.natAbs).length) :
    formatInt false width v = (numeral 10 v.natAbs).map digitChar := by
  unfold formatInt
  simp only [if_neg (not_lt.2 hv), List.nil_append, List.length_map, Nat.sub_eq_zero_of_le hwidth]
  rfl

theorem length_formatInt {v : ℤ} {width : ℕ} (hwidth : 0 < width) (hv : 0 ≤ v) (hlt : v < 10 ^ width) :
    (formatInt true width v).length = width := by
  rw [formatInt_zeros hv, List.length_map]
  refine length_padded (numeral_length_le (by decide) hwidth ?_)
  zify
  rwa [abs_of_nonneg hv]

def readNumber (text : List UInt8) : ℕ := read 10 (text.map fun c => c.toNat - 48)

theorem readNumber_zeros {v : ℤ} (hv : 0 ≤ v) (width : ℕ) :
    readNumber (formatInt true width v) = v.natAbs := by
  rw [readNumber, formatInt_zeros hv,
    map_value digitChar_value fun d hd => padded_lt (by decide) hd, read_padded (by decide)]

theorem readNumber_blanks {v : ℤ} {width : ℕ} (hv : 0 ≤ v)
    (hwidth : width ≤ (numeral 10 v.natAbs).length) :
    readNumber (formatInt false width v) = v.natAbs := by
  rw [readNumber, formatInt_blanks hv hwidth,
    map_value digitChar_value (numeral_isNumeral (by decide) _).digits,
    (numeral_isNumeral (by decide) _).value]

/-- What is to be shown of a time. -/
def timeText (time : Gregorian.Time) : List UInt8 :=
  formatInt false 4 time.date.year ++ (formatInt true 2 time.date.month ++
    (formatInt true 2 time.date.day ++ (32 :: formatInt true 2 time.hour ++
      (58 :: formatInt true 2 time.minute ++ (58 :: formatInt true 2 time.second)))))

theorem dateTimeText_of_shows {tm : Tm} {time : Gregorian.Time} (h : tm.Shows time)
    (hlo : -32044 ≤ time.date.dayNumber) (hhi : time.date.dayNumber ≤ 536838867) :
    dateTimeText tm = timeText time := by
  have hyear := year_range hlo hhi
  have hmonth := time.date.valid.1
  have isYear := h.year.add (lit_is 1900 (by decide)) (by omega)
  have isMonth := h.mon.add (lit_is 1 (by decide)) (by omega)
  rw [show time.date.year - 1900 + (1900 : ℕ) = time.date.year by omega] at isYear
  rw [show time.date.month - 1 + (1 : ℕ) = time.date.month by omega] at isMonth
  rw [dateTimeText, timeText, isYear.1, isMonth.1, h.mday.1, h.hour.1, h.min.1, h.sec.1]

/-- A field that takes two places. -/
def TwoDigits (v : ℤ) : Prop := 0 ≤ v ∧ v < 10 ^ 2

theorem length_two {v : ℤ} (hv : TwoDigits v) : (formatInt true 2 v).length = 2 :=
  length_formatInt (by decide) hv.1 hv.2

theorem append_two_inj {v w : ℤ} (hv : TwoDigits v) (hw : TwoDigits w) {rest rest' : List UInt8}
    (h : formatInt true 2 v ++ rest = formatInt true 2 w ++ rest') : v = w ∧ rest = rest' := by
  obtain ⟨htext, hrest⟩ := List.append_inj h ((length_two hv).trans (length_two hw).symm)
  have hread := congrArg readNumber htext
  rw [readNumber_zeros hv.1, readNumber_zeros hw.1] at hread
  have hv0 := hv.1
  have hw0 := hw.1
  exact ⟨by omega, hrest⟩

/-- With a zone or without one: there "Z" takes the place of the point. -/
theorem length_microText {valid : Bool} {microSeconds : ℤ} (hlo : 0 ≤ microSeconds)
    (hhi : microSeconds < 10 ^ 6) : (microText valid microSeconds).length = 8 := by
  have hlength : (formatInt true 6 microSeconds).length = 6 := length_formatInt (by decide) hlo hhi
  unfold microText
  split_ifs
  · rw [List.length_cons, List.length_append, hlength]
    rfl
  · rw [List.length_append, hlength]
    rfl

section

variable {time time' : Gregorian.Time}

theorem twoDigits_fields (time : Gregorian.Time) : (TwoDigits time.date.month ∧
    TwoDigits time.date.day) ∧ TwoDigits time.hour ∧ TwoDigits time.minute ∧ TwoDigits time.second := by
  have hclock := time.valid
  have hdate := time.date.valid
  have hlength := Gregorian.monthLength_pos time.date.year time.date.month
  unfold Gregorian.Valid at hdate
  unfold TwoDigits
  omega

theorem four_le_length (hyear : 1000 ≤ time.date.year) :
    4 ≤ (numeral 10 time.date.year.natAbs).length :=
  (lt_length_numeral_iff (k := 3) (by decide) (by decide)).2 (by omega)

theorem length_timeText (hyear : 1000 ≤ time.date.year) :
    (timeText time).length = (numeral 10 time.date.year.natAbs).length + 13 := by
  obtain ⟨⟨hmonth, hday⟩, hhour, hminute, hsecond⟩ := twoDigits_fields time
  rw [timeText, formatInt_blanks (by omega) (four_le_length hyear)]
  simp only [List.length_append, List.length_cons, List.length_map, length_two hmonth,
    length_two hday, length_two hhour, length_two hminute, length_two hsecond]

/-- The text has its 17 characters up to the end of the year 9999. -/
theorem length_timeText_iff (hyear : 1000 ≤ time.date.year) :
    (timeText time).length = 17 ↔ time.date.year < 10000 := by
  have hmin := four_le_length hyear
  have hmax := lt_length_numeral_iff (b := 10) (n := time.date.year.natAbs) (k := 4) (by decide) (by decide)
  rw [length_timeText hyear]
  omega

/-- The text shows the time. -/
theorem timeText_inj (hyear : 1000 ≤ time.date.year) (hyear' : 1000 ≤ time'.date.year)
    (h : timeText time = timeText time') : time = time' := by
  have hlength := congrArg List.length h
  rw [length_timeText hyear, length_timeText hyear'] at hlength
  have hplaces : (formatInt false 4 time.date.year).length = (formatInt false 4 time'.date.year).length := by
    rw [formatInt_blanks (by omega) (four_le_length hyear),
      formatInt_blanks (by omega) (four_le_length hyear'), List.length_map, List.length_map]
    omega
  obtain ⟨⟨hmonth, hday⟩, hhour, hminute, hsecond⟩ := twoDigits_fields time
  obtain ⟨⟨hmonth', hday'⟩, hhour', hminute', hsecond'⟩ := twoDigits_fields time'
  unfold timeText at h
  obtain ⟨hy, h⟩ := List.append_inj h hplaces
  have hy := congrArg readNumber hy
  rw [readNumber_blanks (by omega) (four_le_length hyear),
    readNumber_blanks (by omega) (four_le_length hyear')] at hy
  obtain ⟨hm, h⟩ := append_two_inj hmonth hmonth' h
  obtain ⟨hd, h⟩ := append_two_inj hday hday' h
  obtain ⟨hh, h⟩ := append_two_inj hhour hhour' (List.cons.inj h).2
  obtain ⟨hmin, h⟩ := append_two_inj hminute hminute' (List.cons.inj h).2
  obtain ⟨hs, -⟩ := append_two_inj hsecond hsecond' (congrArg (· ++ []) (List.cons.inj h).2)
  obtain ⟨⟨y, m, d, hvalid⟩, hour, minute, second, hclock⟩ := time
  obtain ⟨⟨y', m', d', hvalid'⟩, hour', minute', second', hclock'⟩ := time'
  dsimp only at hyear hyear' hy hm hd hh hmin hs
  obtain rfl : y = y' := by omega
  subst hm hd hh hmin hs
  rfl

end

end Czy.Logger

namespace Czy.Logging

open Logger

variable {log log' : Logging} {gmtimeR : ℤ → LocalTm}

theorem append_append_data {text us : List UInt8} (htext : text.length = 17) (hus : us.length = 8) :
    (((FixBuffer.new : FixBuffer LogStream.kSmallBuffer).append text).append us).data = text ++ us := by
  have hfirst : ((FixBuffer.new : FixBuffer LogStream.kSmallBuffer).append text).data = text := by
    rw [FixBuffer.append_data, if_pos]
    · rfl
    · rw [htext]
      decide
  rw [FixBuffer.append_data, hfirst, if_pos]
  rw [FixBuffer.avail, hfirst, htext, hus]
  decide

theorem insertT_ok {stream stream' : FixBuffer LogStream.kSmallBuffer} {str : List UInt8} {len : ℕ} :
    insertT stream str len = .ok stream' ↔ str.length = len ∧ stream' = stream.append str := by
  rw [insertT, bind_ok]
  simp only [check_ok]
  constructor
  · rintro ⟨-, hlen, ⟨⟩⟩
    exact ⟨hlen, rfl⟩
  · rintro ⟨hlen, rfl⟩
    exact ⟨(), hlen, rfl⟩

/-- The text that is kept is put before that of the microseconds, if it has its 17 characters:
without a zone the text of the microseconds is not as long as it is asserted to be. -/
theorem putTime_ok {microSeconds : ℤ} (hlo : 0 ≤ microSeconds) (hhi : microSeconds < 10 ^ 6) :
    log.putTime microSeconds = .ok log' ↔ log.logTimeZone.valid = true ∧ log.time.length = 17 ∧
      log' = { log with messages := log.messages ++ [log.time ++ microText true microSeconds] } := by
  have hlength : (microText log.logTimeZone.valid microSeconds).length = 8 := length_microText hlo hhi
  have hus : (microText log.logTimeZone.valid microSeconds).length = (if log.logTimeZone.valid then 8 else 9) ↔
      log.logTimeZone.valid = true := by
    rw [hlength]
    split_ifs with hvalid <;> simp [hvalid]
  unfold putTime
  rw [check_bind (by rw [hlength]; decide)]
  simp only [bind_ok, check_ok, insertT_ok, hus]
  constructor
  · rintro ⟨-, hvalid, _, ⟨htime, rfl⟩, _, ⟨-, rfl⟩, ⟨⟩⟩
    rw [append_append_data htime hlength, hvalid]
    exact ⟨rfl, htime, rfl⟩
  · rintro ⟨hvalid, htime, rfl⟩
    refine ⟨(), hvalid, _, ⟨htime, rfl⟩, _, ⟨hvalid, rfl⟩, ?_⟩
    rw [append_append_data htime hlength, hvalid]
    rfl

/-- In the second of the text nothing is made. -/
theorem makeTime_same {seconds : ℤ} (h : seconds = log.lastSecond) :
    makeTime gmtimeR log seconds = .ok log := by
  rw [makeTime, if_neg (not_not.2 h)]
  rfl

/-- The text of another second replaces the one that is there. -/
theorem makeTime_ok {seconds : ℤ} (h : seconds ≠ log.lastSecond) :
    makeTime gmtimeR log seconds = .ok log' ↔
      ∃ tm, tmTime gmtimeR log.logTimeZone seconds = .ok tm ∧ (dateTimeText tm.toTm).length = 17 ∧
        log' = { log with lastSecond := seconds, time := dateTimeText tm.toTm } := by
  rw [makeTime, if_pos h, bind_ok]
  refine exists_congr fun tm => and_congr_right fun _ => ?_
  simp only [bind_ok, check_ok]
  constructor
  · rintro ⟨-, hlength, ⟨⟩⟩
    rw [List.take_of_length_le (by rw [hlength]; decide)]
    exact ⟨hlength, rfl⟩
  · rintro ⟨hlength, rfl⟩
    refine ⟨(), hlength, ?_⟩
    rw [List.take_of_length_le (by rw [hlength]; decide)]
    rfl

end Czy.Logging
