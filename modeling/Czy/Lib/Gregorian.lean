import Mathlib.Data.Prod.Lex
import Mathlib.Tactic

/-! The proleptic Gregorian calendar: the length of a month, the day after a date
and the number of a date in the count of days, without any machine arithmetic. -/

namespace Gregorian

def leap (y : ℤ) : Bool := decide (4 ∣ y ∧ (¬ 100 ∣ y ∨ 400 ∣ y))

def monthLength (y m : ℤ) : ℤ :=
  if m = 2 then if leap y then 29 else 28
  else if m = 4 ∨ m = 6 ∨ m = 9 ∨ m = 11 then 30
  else 31

def Valid (y m d : ℤ) : Prop := (1 ≤ m ∧ m ≤ 12) ∧ 1 ≤ d ∧ d ≤ monthLength y m

instance (y m d : ℤ) : Decidable (Valid y m d) := inferInstanceAs (Decidable (_ ∧ _))

structure Date where
  year : ℤ
  month : ℤ
  day : ℤ
  valid : Valid year month day

variable {y m : ℤ}

theorem leap_iff : leap y = true ↔ 4 ∣ y ∧ (¬ 100 ∣ y ∨ 400 ∣ y) := decide_eq_true_iff

theorem monthLength_pos (y m : ℤ) : 28 ≤ monthLength y m ∧ monthLength y m ≤ 31 := by
  unfold monthLength
  split_ifs <;> omega

theorem valid_first (y : ℤ) {m : ℤ} (h : 1 ≤ m) (h' : m ≤ 12) : Valid y m 1 :=
  ⟨⟨h, h'⟩, le_rfl, by have := monthLength_pos y m; omega⟩

namespace Date

variable {d d' : Date}

def next (d : Date) : Date :=
  if h : d.day < monthLength d.year d.month then
    ⟨d.year, d.month, d.day + 1, d.valid.1, by have := d.valid.2.1; omega, h⟩
  else if h : d.month < 12 then
    ⟨d.year, d.month + 1, 1, valid_first _ (by have := d.valid.1.1; omega) h⟩
  else ⟨d.year + 1, 1, 1, valid_first _ le_rfl (by decide)⟩

/-- Dates compare as (year, month, day) does. -/
def key (d : Date) : ℤ ×ₗ ℤ ×ₗ ℤ := toLex (d.year, toLex (d.month, d.day))

theorem key_injective : Function.Injective key := by
  intro d d' h
  obtain ⟨y, m, k, v⟩ := d
  obtain ⟨y', m', k', v'⟩ := d'
  simp only [key, EmbeddingLike.apply_eq_iff_eq, Prod.mk.injEq] at h
  obtain ⟨rfl, rfl, rfl⟩ := h
  rfl

theorem key_lt_iff : d.key < d'.key ↔ d.year < d'.year ∨ d.year = d'.year ∧
    (d.month < d'.month ∨ d.month = d'.month ∧ d.day < d'.day) := by
  simp only [key, Prod.Lex.toLex_lt_toLex]

theorem key_le_iff : d.key ≤ d'.key ↔ d.year < d'.year ∨ d.year = d'.year ∧
    (d.month < d'.month ∨ d.month = d'.month ∧ d.day ≤ d'.day) := by
  simp only [key, Prod.Lex.toLex_le_toLex]

instance : DecidableEq Date := fun _ _ => decidable_of_iff _ key_injective.eq_iff

end Date

/-- The days before a year, from the first of January of the year 1 on. -/
def daysBeforeYear (y : ℤ) : ℤ := 365 * (y - 1) + (y - 1) / 4 - (y - 1) / 100 + (y - 1) / 400

/-- The days of a year before a month. -/
def daysBeforeMonth (y m : ℤ) : ℤ :=
  if m ≤ 2 then 31 * (m - 1) else (153 * m - 457) / 5 + 31 + monthLength y 2

def yearLength (y : ℤ) : ℤ := 337 + monthLength y 2

/-- The Julian day number. -/
def dayNumber (y m d : ℤ) : ℤ := daysBeforeYear y + daysBeforeMonth y m + d + 1721425

def Date.dayNumber (d : Date) : ℤ := Gregorian.dayNumber d.year d.month d.day

theorem monthLength_two : monthLength y 2 = if leap y then 29 else 28 := rfl

theorem daysBeforeYear_succ (y : ℤ) :
    daysBeforeYear (y + 1) = daysBeforeYear y + yearLength y := by
  unfold daysBeforeYear yearLength
  rw [monthLength_two]
  split_ifs with h
  · rw [leap_iff] at h
    omega
  · rw [leap_iff] at h
    omega

theorem daysBeforeMonth_succ (h : 1 ≤ m) (h' : m < 12) :
    daysBeforeMonth y (m + 1) = daysBeforeMonth y m + monthLength y m := by
  by_cases h2 : m ≤ 2
  · obtain rfl | rfl : m = 1 ∨ m = 2 := by omega
    · rfl
    · unfold daysBeforeMonth
      rw [if_neg (by decide), if_pos le_rfl]
      omega
  · have hnot : ¬ m + 1 ≤ 2 := by omega
    simp only [daysBeforeMonth, h2, hnot, if_false]
    have hlen : monthLength y m = if m = 4 ∨ m = 6 ∨ m = 9 ∨ m = 11 then 30 else 31 := by
      unfold monthLength
      rw [if_neg (by omega)]
    rw [hlen]
    -- omega does not see the rounding before the month is known
    interval_cases m <;> omega

theorem daysBeforeMonth_twelve : daysBeforeMonth y 12 + monthLength y 12 = yearLength y := by
  simp only [daysBeforeMonth, yearLength, show ¬ (12 : ℤ) ≤ 2 by decide, if_false]
  change _ + 31 = _
  omega

theorem daysBeforeYear_mono {z : ℤ} (h : y ≤ z) : daysBeforeYear y ≤ daysBeforeYear z := by
  unfold daysBeforeYear
  omega

theorem daysBeforeMonth_mono {n : ℤ} (h : 1 ≤ m) (hlt : m ≤ n) :
    daysBeforeMonth y m ≤ daysBeforeMonth y n := by
  have := monthLength_pos y 2
  unfold daysBeforeMonth
  split_ifs <;> omega

theorem dayNumber_le_year {m d : ℤ} (h : Valid y m d) :
    daysBeforeMonth y m + d ≤ yearLength y := by
  obtain ⟨⟨h1, h12⟩, -, hlen⟩ := h
  rcases h12.lt_or_eq with hlt | rfl
  · have hsucc := daysBeforeMonth_succ (y := y) h1 hlt
    have hmono := daysBeforeMonth_mono (y := y) (m := m + 1) (n := 12) (by omega) (by omega)
    have htw := daysBeforeMonth_twelve (y := y)
    have := monthLength_pos y 12
    omega
  · have := daysBeforeMonth_twelve (y := y)
    omega

namespace Date

variable {d d' : Date}

/-- The number counts the days one by one. -/
theorem dayNumber_next (d : Date) : d.next.dayNumber = d.dayNumber + 1 := by
  obtain ⟨y, m, k, hv⟩ := d
  have hv' := hv
  obtain ⟨⟨h1, h12⟩, hk, hlen⟩ := hv'
  unfold next Date.dayNumber Gregorian.dayNumber
  split_ifs with hday hmonth
  · simp only
    omega
  · simp only at hday hmonth ⊢
    have := daysBeforeMonth_succ (y := y) h1 hmonth
    omega
  · simp only at hday hmonth ⊢
    obtain rfl : m = 12 := by omega
    have hyear := daysBeforeYear_succ y
    have htw := daysBeforeMonth_twelve (y := y)
    change _ + 0 + 1 + _ = _
    omega

theorem dayNumber_lt_of_key (h : d.key < d'.key) : d.dayNumber < d'.dayNumber := by
  unfold Date.dayNumber Gregorian.dayNumber
  have hd := dayNumber_le_year d.valid
  have hd' := d'.valid
  rcases key_lt_iff.1 h with hy | ⟨hy, hm | ⟨hm, hday⟩⟩
  · have hmono := daysBeforeYear_mono (y := d.year + 1) (z := d'.year) hy
    have hfirst := daysBeforeMonth_mono (y := d'.year) le_rfl hd'.1.1
    rw [daysBeforeYear_succ] at hmono
    have hzero : daysBeforeMonth d'.year 1 = 0 := rfl
    have := hd'.2.1
    omega
  · rw [← hy] at hd' ⊢
    have hsucc := daysBeforeMonth_succ (y := d.year) d.valid.1.1 (by have := hd'.1.2; omega)
    have hmono := daysBeforeMonth_mono (y := d.year) (m := d.month + 1) (n := d'.month)
      (by have := d.valid.1.1; omega) hm
    have := d.valid.2.2
    have := hd'.2.1
    omega
  · rw [← hy, ← hm]
    omega

/-- The numbers are in the order of the dates. -/
theorem dayNumber_lt_iff : d.dayNumber < d'.dayNumber ↔ d.key < d'.key := by
  refine ⟨fun h => ?_, dayNumber_lt_of_key⟩
  rcases lt_trichotomy d.key d'.key with hlt | heq | hgt
  · exact hlt
  · rw [key_injective heq] at h
    exact absurd h (lt_irrefl _)
  · exact absurd (dayNumber_lt_of_key hgt) (by omega)

theorem dayNumber_lt_first_iff (d : Date) (y : ℤ) : d.dayNumber < Gregorian.dayNumber y 1 1 ↔ d.year < y := by
  let first : Date := ⟨y, 1, 1, valid_first y le_rfl (by decide)⟩
  have hvalid := d.valid
  unfold Valid at hvalid
  change d.dayNumber < first.dayNumber ↔ _
  rw [dayNumber_lt_iff, key_lt_iff]
  refine ⟨fun h => ?_, fun h => .inl h⟩
  dsimp only [first] at h
  omega

theorem dayNumber_injective : Function.Injective Date.dayNumber := by
  intro d d' h
  rcases lt_trichotomy d.key d'.key with hlt | heq | hgt
  · exact absurd (dayNumber_lt_of_key hlt) (by omega)
  · exact key_injective heq
  · exact absurd (dayNumber_lt_of_key hgt) (by omega)

end Date

def Date.dayOfYear (d : Date) : ℤ := daysBeforeMonth d.year d.month + (d.day - 1)

theorem Date.dayOfYear_range (d : Date) : 0 ≤ d.dayOfYear ∧ d.dayOfYear < yearLength d.year := by
  have hle := dayNumber_le_year d.valid
  have hmono := daysBeforeMonth_mono (y := d.year) le_rfl d.valid.1.1
  have hpos := d.valid.2.1
  change 0 ≤ _ at hmono
  unfold Date.dayOfYear
  omega

theorem Date.dayNumber_sub_first (d : Date) :
    d.dayNumber - Gregorian.dayNumber d.year 1 1 = d.dayOfYear := by
  have hfirst : daysBeforeMonth d.year 1 = 0 := rfl
  unfold Date.dayNumber Gregorian.dayNumber Date.dayOfYear
  omega

structure Time where
  date : Date
  hour : ℤ
  minute : ℤ
  second : ℤ
  valid : (0 ≤ hour ∧ hour ≤ 23) ∧ (0 ≤ minute ∧ minute ≤ 59) ∧ 0 ≤ second ∧ second ≤ 59

namespace Time

variable {time time' : Time}

def secondOfDay (time : Time) : ℤ := time.hour * 3600 + time.minute * 60 + time.second

/-- The seconds since the first of January of 1970. -/
def seconds (time : Time) : ℤ := (time.date.dayNumber - 2440588) * 86400 + time.secondOfDay

theorem secondOfDay_range (time : Time) : 0 ≤ time.secondOfDay ∧ time.secondOfDay < 86400 := by
  have := time.valid
  unfold secondOfDay
  omega

theorem seconds_div (time : Time) : time.seconds / 86400 + 2440588 = time.date.dayNumber := by
  have := time.secondOfDay_range
  unfold seconds
  omega

theorem seconds_injective : Function.Injective seconds := by
  intro time time' h
  have hnumber : time.date.dayNumber = time'.date.dayNumber := by
    rw [← seconds_div, ← seconds_div, h]
  have hsecond : time.secondOfDay = time'.secondOfDay := by
    unfold seconds at h
    omega
  obtain ⟨date, h1, m1, s1, v1⟩ := time
  obtain ⟨date', h2, m2, s2, v2⟩ := time'
  obtain rfl := Date.dayNumber_injective hnumber
  simp only [secondOfDay] at hsecond
  obtain rfl : h1 = h2 := by omega
  obtain rfl : m1 = m2 := by omega
  obtain rfl : s1 = s2 := by omega
  rfl

/-- Times follow each other as their dates do, and on one date by the clock. -/
theorem seconds_lt_iff : time.seconds < time'.seconds ↔ time.date.key < time'.date.key ∨
    time.date = time'.date ∧ (time.hour < time'.hour ∨ time.hour = time'.hour ∧
      (time.minute < time'.minute ∨ time.minute = time'.minute ∧ time.second < time'.second)) := by
  have hday := time.secondOfDay_range
  have hday' := time'.secondOfDay_range
  have hvalid := time.valid
  have hvalid' := time'.valid
  rw [← Date.dayNumber_lt_iff, ← Date.dayNumber_injective.eq_iff]
  unfold seconds secondOfDay at *
  omega

end Time

end Gregorian
