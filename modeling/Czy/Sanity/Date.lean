import Czy.Lib.Gregorian
import Czy.Spec.Date

/-! The closed formulas of base/date.cpp against the calendar: first in exact
arithmetic, then with the ranges of the intermediate values. -/

namespace Czy

/-- The fields are computed without an overflow and are those of a date. -/
structure YearMonthDay.Is (ymd : YearMonthDay) (date : Gregorian.Date) : Prop where
  year : ymd.year.Is date.year
  month : ymd.month.Is date.month
  day : ymd.day.Is date.day

theorem lit_is (n : ℕ) (h : n < 2147483648) : Checked.Is (OfNat.ofNat n : CInt) n :=
  Checked.lit_is n (by omega)

/-- The quotients of both formulas: without an overflow of the dividend there is none. -/
theorem quotient_is (p q k : ℕ) {x : CInt} {a : ℤ} (hx : x.Is a) (ha : 0 ≤ a)
    (hp : p < 2147483648) (hq : q < 2147483648) (hk : 0 < k ∧ k < 2147483648)
    (h : p * a + q < 2147483648) :
    Checked.Is ((OfNat.ofNat p * x + OfNat.ofNat q) / (OfNat.ofNat k : CInt)) ((p * a + q) / k) := by
  have hpa : 0 ≤ p * a := Int.mul_nonneg (by omega) ha
  have hmul := (lit_is p hp).mul hx (by omega)
  have hadd := hmul.add (lit_is q hq) (by omega)
  exact hadd.div_of_nonneg (lit_is k hk.2) (by omega) (by omega) h

def julianDayOf (d : Gregorian.Date) : CInt := getJulianDayNumber d.year d.month d.day

/-- Periods of k days with one day more in every fourth: a day is in a period b, and
the last of the longer ones is the only one that is k days into it. -/
theorem fourth_split {k a b c : ℤ} (hk : 0 < k) (ha : 0 ≤ a) (hb : b = (4 * a + 3) / (4 * k + 1))
    (hc : c = a - (4 * k + 1) * b / 4) :
    (0 ≤ b ∧ 0 ≤ c) ∧ (c < k ∨ c = k ∧ 4 ∣ b + 1) ∧ a = k * b + b / 4 + c := by
  have hb0 : 0 ≤ b := hb ▸ Int.ediv_nonneg (by omega) (by omega)
  have hlo : (4 * k + 1) * b ≤ 4 * a + 3 := hb ▸ Int.mul_ediv_self_le (by omega)
  have hhi : 4 * a + 3 < (4 * k + 1) * b + (4 * k + 1) := hb ▸ Int.lt_mul_ediv_self_add (by omega)
  have hsplit : (4 * k + 1) * b = 4 * (k * b) + b := by ring
  rw [hsplit] at hlo hhi hc
  clear hb hsplit
  refine ⟨⟨hb0, ?_⟩, ?_, ?_⟩ <;> omega

/-- With y counted from −4800 and from March on, the formula counts days. -/
theorem marchBased_dayNumber {y m d a : ℤ} (hm : 1 ≤ m ∧ m ≤ 12) (ha : a = (14 - m) / 12) :
    d + (153 * (m + 12 * a - 3) + 2) / 5 + (y + 4800 - a) * 365 + (y + 4800 - a) / 4 -
      (y + 4800 - a) / 100 + (y + 4800 - a) / 400 - 32045 = Gregorian.dayNumber y m d := by
  unfold Gregorian.dayNumber Gregorian.daysBeforeYear Gregorian.daysBeforeMonth
  obtain ⟨h1, h12⟩ := hm
  by_cases h2 : m ≤ 2
  · -- the year before has begun with its March
    obtain rfl : a = 1 := by omega
    rw [if_pos h2]
    obtain rfl | rfl : m = 1 ∨ m = 2 := by omega
    · omega
    · omega
  · obtain rfl : a = 0 := by omega
    have hmonths : 153 * (m + 12 * 0 - 3) + 2 = 153 * m - 457 := by ring
    rw [if_neg h2, hmonths, Gregorian.monthLength_two]
    have hleap := Gregorian.leap_iff (y := y)
    by_cases h : Gregorian.leap y = true
    · rw [if_pos h]
      rw [hleap] at h
      omega
    · rw [if_neg h]
      rw [hleap] at h
      omega

/-- From −4800-03-01 on the quotients are of numbers that are not negative. -/
theorem getJulianDayNumber_value {y m d : ℤ} (hm : 1 ≤ m ∧ m ≤ 12)
    (hy : 0 ≤ y + 4800 - (14 - m) / 12) :
    (getJulianDayNumber y m d).value = Gregorian.dayNumber y m d := by
  rw [← marchBased_dayNumber hm rfl]
  have ha : (14 - m).tdiv 12 = (14 - m) / 12 := Int.tdiv_eq_ediv_of_nonneg (by omega)
  change d + (153 * (m + 12 * (14 - m).tdiv 12 - 3) + 2).tdiv 5 + (y + 4800 - (14 - m).tdiv 12) * 365 +
    (y + 4800 - (14 - m).tdiv 12).tdiv 4 - (y + 4800 - (14 - m).tdiv 12).tdiv 100 +
    (y + 4800 - (14 - m).tdiv 12).tdiv 400 - 32045 = _
  rw [ha, Int.tdiv_eq_ediv_of_nonneg (a := _ + 2) (by omega), Int.tdiv_eq_ediv_of_nonneg (b := 4) hy,
    Int.tdiv_eq_ediv_of_nonneg (b := 100) hy, Int.tdiv_eq_ediv_of_nonneg (b := 400) hy]

theorem getJulianDayNumber_is {y m d : ℤ} (hm : 1 ≤ m ∧ m ≤ 12) (hd : 1 ≤ d ∧ d ≤ 31)
    (hlo : 0 ≤ y + 4800 - (14 - m) / 12) (hhi : y ≤ 5000000) :
    (getJulianDayNumber y m d).Is (Gregorian.dayNumber y m d) := by
  rw [← marchBased_dayNumber hm rfl]
  have hy : Checked.Is (y : CInt) y := Checked.of_is (by omega)
  have hm' : Checked.Is (m : CInt) m := Checked.of_is (by omega)
  have hd' : Checked.Is (d : CInt) d := Checked.of_is (by omega)
  have ha : 0 ≤ (14 - m) / 12 ∧ (14 - m) / 12 ≤ 1 := by omega
  have hm3 : 0 ≤ m + 12 * ((14 - m) / 12) - 3 ∧ m + 12 * ((14 - m) / 12) - 3 ≤ 11 := by omega
  have isA := ((lit_is 14 (by decide)).sub hm' (by omega)).div_of_nonneg (lit_is 12 (by decide))
    (by omega) (by omega) (by omega)
  generalize hA : (14 - (m : CInt)) / 12 = A at isA
  generalize (14 - m) / 12 = a at ha hm3 hlo isA ⊢
  have isM := (hm'.add ((lit_is 12 (by decide)).mul isA (by omega)) (by omega)).sub
    (lit_is 3 (by decide)) (by omega)
  have isY := (hy.add (lit_is 4800 (by decide)) (by omega)).sub isA (by omega)
  generalize hM : (m : CInt) + 12 * A - 3 = M at isM
  generalize hY : (y : CInt) + 4800 - A = Y at isY
  have hY' : y + 4800 - a ≤ 5004800 := by omega
  generalize m + 12 * a - 3 = m3 at hm3 isM ⊢
  generalize y + 4800 - a = y4800 at hlo hY' isY ⊢
  clear hm hm' hy hhi ha isA
  have months := quotient_is 153 2 5 isM hm3.1 (by decide) (by decide) (by decide) (by omega)
  have years := isY.mul (lit_is 365 (by decide)) (by omega)
  have quarter := isY.div_of_nonneg (lit_is 4 (by decide)) hlo (by omega) (by omega)
  have century := isY.div_of_nonneg (lit_is 100 (by decide)) hlo (by omega) (by omega)
  have cycle := isY.div_of_nonneg (lit_is 400 (by decide)) hlo (by omega) (by omega)
  have sum := (((hd'.add months (by omega)).add years (by omega)).add quarter (by omega)).sub century
    (by omega)
  simp only [getJulianDayNumber, hA, hM, hY]
  exact (sum.add cycle (by omega)).sub (lit_is 32045 (by decide)) (by omega)

/-- A day e of a year that began in March, with the month m that it is in. -/
theorem marchMonth_valid {y e m : ℤ} (he : 0 ≤ e ∧ e ≤ 365) (hm : m = (5 * e + 2) / 153)
    (hleap : e = 365 → Gregorian.leap (y + 1) = true) :
    Gregorian.Valid (y + m / 10) (m + 3 - 12 * (m / 10)) (e - (153 * m + 2) / 5 + 1) := by
  have hm0 : 0 ≤ m := by omega
  have hm11 : m ≤ 11 := by omega
  by_cases h11 : m = 11
  · subst h11
    change Gregorian.Valid (y + 1) 2 (e - 337 + 1)
    refine ⟨by decide, by omega, ?_⟩
    rw [Gregorian.monthLength_two]
    split_ifs with h
    · omega
    · have : e ≠ 365 := fun he => h (hleap he)
      omega
  · have hlen : Gregorian.monthLength (y + m / 10) (m + 3 - 12 * (m / 10)) =
        if m = 1 ∨ m = 3 ∨ m = 6 ∨ m = 8 then 30 else 31 := by
      unfold Gregorian.monthLength
      rw [if_neg (by omega)]
      exact if_congr (by omega) rfl rfl
    rw [Gregorian.Valid, hlen]
    interval_cases m <;> simp <;> omega

/-- A day a is the day e of a year d of a century b, with the month m, where a century
and a year begin with a first of March and the count of centuries with that of −4800. -/
structure MarchBased (a b c d e m : ℤ) : Prop where
  century : 0 ≤ b
  dayOfCentury : 0 ≤ c ∧ (c < 36524 ∨ c = 36524 ∧ 4 ∣ b + 1)
  year : 0 ≤ d ∧ d ≤ 99
  dayOfYear : 0 ≤ e ∧ (e < 365 ∨ e = 365 ∧ 4 ∣ d + 1)
  month : m = (5 * e + 2) / 153
  days : a = 36524 * b + b / 4 + c
  daysOfCentury : c = 365 * d + d / 4 + e

variable {a b c d e m : ℤ}

theorem marchBased (ha : 0 ≤ a) (hb : b = (4 * a + 3) / 146097) (hc : c = a - b * 146097 / 4)
    (hd : d = (4 * c + 3) / 1461) (he : e = c - 1461 * d / 4) (hm : m = (5 * e + 2) / 153) :
    MarchBased a b c d e m := by
  rw [mul_comm b] at hc
  obtain ⟨⟨hb0, hc0⟩, hcb, hac⟩ := fourth_split (k := 36524) (by decide) ha hb hc
  obtain ⟨⟨hd0, he0⟩, hed, hce⟩ := fourth_split (k := 365) (by decide) hc0 hd he
  exact ⟨hb0, ⟨hc0, hcb⟩, ⟨hd0, by omega⟩, ⟨he0, hed⟩, hm, hac, hce⟩

namespace MarchBased

variable (h : MarchBased a b c d e m)

include h

theorem month_range : 0 ≤ m ∧ m ≤ 11 := by
  have := h.month
  have := h.dayOfYear
  omega

theorem valid : Gregorian.Valid (b * 100 + d - 4800 + m / 10) (m + 3 - 12 * (m / 10))
    (e - (153 * m + 2) / 5 + 1) := by
  obtain ⟨hb, ⟨-, hcb⟩, ⟨hd0, hd⟩, ⟨he, hed⟩, hm, -, hce⟩ := h
  refine marchMonth_valid ⟨he, by omega⟩ hm fun h365 => Gregorian.leap_iff.2 ⟨by omega, ?_⟩
  rcases hd.lt_or_eq with hlt | rfl
  · left; omega
  · right; omega

theorem dayNumber : Gregorian.dayNumber (b * 100 + d - 4800 + m / 10) (m + 3 - 12 * (m / 10))
    (e - (153 * m + 2) / 5 + 1) = a - 32044 := by
  obtain ⟨hm0, hm11⟩ := h.month_range
  obtain ⟨hb, -, hd, -, -, hac, hce⟩ := h
  have ha : m / 10 = (14 - (m + 3 - 12 * (m / 10))) / 12 := by omega
  rw [← marchBased_dayNumber (a := m / 10) (by omega) ha]
  have hy : b * 100 + d - 4800 + m / 10 + 4800 - m / 10 = 100 * b + d := by ring
  have hm : m + 3 - 12 * (m / 10) + 12 * (m / 10) - 3 = m := by ring
  rw [hy, hm]
  clear ha hy hm
  omega

end MarchBased

/-- The inverse formula gives a date of the calendar, up to the limit of 4a + 3. -/
theorem getYearMonthDay_is {n : ℤ} (hlo : -32044 ≤ n) (hhi : n ≤ 536838867) :
    ∃ date : Gregorian.Date, date.dayNumber = n ∧ (getYearMonthDay n).Is date := by
  obtain ⟨a, ha⟩ : ∃ a, a = n + 32044 := ⟨_, rfl⟩
  obtain ⟨b, hb⟩ : ∃ b, b = (4 * a + 3) / 146097 := ⟨_, rfl⟩
  obtain ⟨c, hc⟩ : ∃ c, c = a - b * 146097 / 4 := ⟨_, rfl⟩
  obtain ⟨d, hd⟩ : ∃ d, d = (4 * c + 3) / 1461 := ⟨_, rfl⟩
  obtain ⟨e, he⟩ : ∃ e, e = c - 1461 * d / 4 := ⟨_, rfl⟩
  obtain ⟨m, hm⟩ : ∃ m, m = (5 * e + 2) / 153 := ⟨_, rfl⟩
  have h := marchBased (by omega) hb hc hd he hm
  refine ⟨⟨_, _, _, h.valid⟩, by rw [Gregorian.Date.dayNumber, h.dayNumber]; omega, ?_⟩
  have hm11 := h.month_range
  obtain ⟨hb0, ⟨hc0, hc1⟩, hd0, ⟨he0, he1⟩, -, hac, hce⟩ := h
  have isA : Checked.Is ((n : CInt) + 32044) a := by
    rw [ha]
    exact (Checked.of_is (by omega)).add (lit_is 32044 (by decide)) (by omega)
  generalize hA : (n : CInt) + 32044 = A at isA
  have isB : Checked.Is ((4 * A + 3) / 146097) b := by
    rw [hb]
    exact quotient_is 4 3 146097 isA (by omega) (by decide) (by decide) (by decide) (by omega)
  generalize hB : (4 * A + 3) / 146097 = B at isB
  have isC : Checked.Is (A - B * 146097 / 4) c := by
    rw [hc]
    exact isA.sub ((isB.mul (lit_is 146097 (by decide)) (by omega)).div_of_nonneg
      (lit_is 4 (by decide)) (by omega) (by omega) (by omega)) (by omega)
  generalize hC : A - B * 146097 / 4 = C at isC
  have isD : Checked.Is ((4 * C + 3) / 1461) d := by
    rw [hd]
    exact quotient_is 4 3 1461 isC (by omega) (by decide) (by decide) (by decide) (by omega)
  generalize hD : (4 * C + 3) / 1461 = D at isD
  have isE : Checked.Is (C - 1461 * D / 4) e := by
    rw [he]
    exact isC.sub (((lit_is 1461 (by decide)).mul isD (by omega)).div_of_nonneg
      (lit_is 4 (by decide)) (by omega) (by omega) (by omega)) (by omega)
  generalize hE : C - 1461 * D / 4 = E at isE
  have isM : Checked.Is ((5 * E + 2) / 153) m := by
    rw [hm]
    exact quotient_is 5 2 153 isE (by omega) (by decide) (by decide) (by decide) (by omega)
  generalize hM : (5 * E + 2) / 153 = M at isM
  have isTen : Checked.Is (M / 10) (m / 10) :=
    isM.div_of_nonneg (lit_is 10 (by decide)) hm11.1 (by decide) (by omega)
  clear hb hc hd he hm
  simp only [getYearMonthDay, hA, hB, hC, hD, hE, hM]
  refine ⟨?_, ?_, ?_⟩
  · exact (((isB.mul (lit_is 100 (by decide)) (by omega)).add isD (by omega)).sub
      (lit_is 4800 (by decide)) (by omega)).add isTen (by omega)
  · exact (isM.add (lit_is 3 (by decide)) (by omega)).sub
      ((lit_is 12 (by decide)).mul isTen (by omega)) (by omega)
  · have days := quotient_is 153 2 5 isM hm11.1 (by decide) (by decide) (by decide) (by omega)
    exact (isE.sub days (by omega)).add (lit_is 1 (by decide)) (by omega)

/-- The first of March of −4800. -/
def firstDay : Gregorian.Date := ⟨-4800, 3, 1, by decide⟩

theorem firstDay_le_iff {date : Gregorian.Date} :
    firstDay.key ≤ date.key ↔ -32044 ≤ date.dayNumber := by
  rw [← not_lt, ← Gregorian.Date.dayNumber_lt_iff, not_lt]
  exact Iff.rfl

theorem marchYear_nonneg {date : Gregorian.Date} (h : firstDay.key ≤ date.key) :
    0 ≤ date.year + 4800 - (14 - date.month) / 12 := by
  have hm := date.valid.1
  have hkey := Gregorian.Date.key_le_iff.1 h
  simp only [firstDay] at hkey
  omega

theorem julianDayOf_value {date : Gregorian.Date} (h : firstDay.key ≤ date.key) :
    (julianDayOf date).value = date.dayNumber :=
  getJulianDayNumber_value date.valid.1 (marchYear_nonneg h)

theorem year_range {date : Gregorian.Date} (hlo : -32044 ≤ date.dayNumber)
    (hhi : date.dayNumber ≤ 536838867) : -4800 ≤ date.year ∧ date.year ≤ 1500000 := by
  have hd := date.valid.2
  have hm := date.valid.1
  have hmonths := Gregorian.daysBeforeMonth_mono (y := date.year) le_rfl hm.1
  have hyear := marchYear_nonneg (firstDay_le_iff.2 hlo)
  unfold Gregorian.Date.dayNumber Gregorian.dayNumber Gregorian.daysBeforeYear at hhi
  change 0 ≤ _ at hmonths
  omega

theorem julianDayOf_is {date : Gregorian.Date} (hlo : -32044 ≤ date.dayNumber)
    (hhi : date.dayNumber ≤ 536838867) : (julianDayOf date).Is date.dayNumber := by
  have hd := date.valid.2
  have hlen := Gregorian.monthLength_pos date.year date.month
  have hyear := year_range hlo hhi
  exact getJulianDayNumber_is date.valid.1 ⟨hd.1, by omega⟩
    (marchYear_nonneg (firstDay_le_iff.2 hlo)) (by omega)

theorem YearMonthDay.Is.eq_of {ymd : YearMonthDay} {date : Gregorian.Date} (h : ymd.Is date)
    (hlo : -32044 ≤ date.dayNumber) (hhi : date.dayNumber ≤ 536838867) :
    ymd = ⟨(date.year : CInt), (date.month : CInt), (date.day : CInt)⟩ := by
  obtain ⟨y, m, d⟩ := ymd
  have hyear := year_range hlo hhi
  have hm := date.valid.1
  have hd := date.valid.2
  have hlen := Gregorian.monthLength_pos date.year date.month
  rw [← h.year.eq_of (by omega), ← h.month.eq_of (by omega), ← h.day.eq_of (by omega)]

/-- A number that is computed without an overflow is far below the limit. -/
theorem getJulianDayNumber_lt {year month day : CInt} {z : ℤ}
    (h : (getJulianDayNumber year month day).Is z) : z < 2147483648 - 32045 := by
  obtain ⟨rfl, hok⟩ := h
  obtain ⟨⟨hsum, -⟩, -⟩ := Checked.sub_ok.1 hok
  have hlt := (Checked.add_ok.1 hsum).2.2
  change _ + _ - (32045 : ℤ) < _
  exact Int.sub_lt_sub_right hlt _

theorem Date.weekDay_is (date : Date) {n : ℤ} (h : date.julianDayNumber.Is n) (hnonneg : 0 ≤ n)
    (hlt : n + 1 < 2147483648) : date.weekDay.Is ((n + 1) % 7) := by
  exact (h.add (lit_is 1 (by decide)) (by omega)).mod_of_nonneg (lit_is 7 (by decide)) (by omega)
    (by decide) hlt

end Czy
