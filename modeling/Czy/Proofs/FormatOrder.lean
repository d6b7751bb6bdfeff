import Czy.Proofs.FormatSI
import Czy.Spec.FormatIEC

/-! With the numbers rounded to `double`s, `formatSI` and `formatIEC` never print a smaller number
for a greater one, and what `formatIEC` prints is short and accurate. -/

namespace Czy

open Numeral Rounding

/-- The power of 1024 that a suffix stands for. -/
def iecPower : List Char → Option ℕ
  | [] => some 0
  | ['K', 'i'] => some 1
  | ['M', 'i'] => some 2
  | ['G', 'i'] => some 3
  | ['T', 'i'] => some 4
  | ['P', 'i'] => some 5
  | ['E', 'i'] => some 6
  | _ => none

def iecValue : List Char → Option ℚ := suffixValue iecPower 1024

/-- At most six characters, and at most half a percent from `s`. -/
def IecAccurate (s : ℤ) (text : List Char) : Prop :=
  text.length ≤ 6 ∧ ∃ v, iecValue text = some v ∧ |v - s| ≤ (s : ℚ) / 200

/-- A text with a sign is read as the number behind it, negated. -/
def signedValue (value : List Char → Option ℚ) : List Char → Option ℚ
  | '-' :: text => (value text).map fun v => -v
  | text => value text

variable {N k p : ℕ} {s limit : ℤ} {tail : List Char} {base x y : ℚ} {power : List Char → Option ℕ}

theorem length_printF (hy : 0 ≤ y) (hN : N < k) (hlt : y * 10 ^ N < (10 : ℚ) ^ k - 1 / 2) :
    (printF N y).length ≤ k + 1 ∧ (N = 0 → (printF N y).length ≤ k) := by
  obtain ⟨m, htext, hm⟩ := printF_decimal hy N
  have hround : roundHalfEven (y * 10 ^ N) ≤ 10 ^ k - 1 :=
    roundHalfEven_le (by push_cast; linarith)
  have hm_lt : m < 10 ^ k := by
    zify
    omega
  rw [htext]
  exact length_decimal_lt hN hm_lt

theorem value_printF (hy : 0 ≤ y) (hlt : y ≤ 2 ^ 63) (hN : N ≤ 2) (htail : tail.length ≤ 2)
    (hpower : power tail = some p) (hstop : ∀ c ∈ tail, isNumeralChar c = false) (hbase : 0 < base) :
    suffixValue power base (printInto 64 (printF N y ++ tail)) =
      some (toGrid (base ^ p / 10 ^ N) (y * base ^ p)) := by
  have hten : (10 : ℚ) ^ N ≤ 10 ^ 2 := pow_le_pow_right₀ (by norm_num) hN
  have hscaled : y * 10 ^ N ≤ 2 ^ 63 * 10 ^ 2 := mul_le_mul hlt hten (by positivity) (by norm_num)
  have hlen := (length_printF (k := 40) hy (by omega) (hscaled.trans_lt (by norm_num))).1
  obtain ⟨m, htext, hm⟩ := printF_decimal hy N
  have hunits : y * base ^ p / (base ^ p / 10 ^ N) = y * 10 ^ N := by field_simp
  rw [printInto_short (by rw [List.length_append]; omega), htext, suffixValue_decimal hpower hstop,
    toGrid, hunits, ← hm, Int.cast_natCast]
  congr 1
  field_simp

theorem signedValue_of_value {value : List Char → Option ℚ} {text : List Char}
    (h : value text = some x) (hminus : ∀ text, value ('-' :: text) = none) :
    signedValue value text = some x := by
  rw [signedValue]
  · exact h
  · rintro rest rfl
    rw [hminus] at h
    cases h

theorem value_printD (hs : 0 ≤ s) (hlt : s < 2 ^ 63) (hpower : power [] = some 0) :
    suffixValue power base (printInto 64 (printD s)) = some (s : ℚ) := by
  have hlen := (length_decimal_lt (N := 0) (m := s.natAbs) (k := 40) (by decide) (by omega)).1
  have hs' : (s.natAbs : ℚ) = s := by rw [Nat.cast_natAbs, abs_of_nonneg hs]
  rw [printD_eq hs, printInto_short (by rw [List.append_nil]; omega),
    suffixValue_decimal hpower (by simp), hs']
  simp

theorem signedValue_printD (hlow : -2 ^ 63 ≤ s) (hlt : s < 2 ^ 63) (hpower : power [] = some 0)
    (hminus : ∀ text, suffixValue power base ('-' :: text) = none) :
    signedValue (suffixValue power base) (printInto 64 (printD s)) = some (s : ℚ) := by
  rcases lt_or_ge s 0 with hneg | hs
  · have htext : printD s = '-' :: decimal 0 s.natAbs := by
      rw [printD, if_pos hneg, decimal, if_pos rfl, pow_zero, Nat.div_one, List.append_nil]
      rfl
    have hlen := (length_decimal_lt (N := 0) (m := s.natAbs) (k := 40) (by decide) (by omega)).1
    have hread : suffixValue power base (decimal 0 s.natAbs ++ []) =
        some ((s.natAbs : ℚ) / 10 ^ 0 * base ^ 0) := suffixValue_decimal hpower (by simp)
    have hs' : -(s.natAbs : ℚ) = s := by
      rw [Nat.cast_natAbs, abs_of_neg hneg]
      push_cast
      ring
    rw [List.append_nil] at hread
    rw [htext, printInto_short (by rw [List.length_cons]; omega), signedValue, hread,
      Option.map_some, pow_zero, pow_zero, div_one, mul_one, hs']
  · exact signedValue_of_value (value_printD hs hlt hpower) hminus

theorem value_band {value : List Char → Option ℚ} {c : Prop} [Decidable c] {a b : List Char}
    {band : Band} {bands : List Band} {last : ℚ → ℚ} (hc : c ↔ x < band.limit)
    (ha : value a = some (band.value x)) (hb : value b = some (banded bands last x)) :
    value (if c then a else b) = some (banded (band :: bands) last x) := by
  rw [banded]
  by_cases h : c
  · rw [if_pos h, if_pos (hc.1 h), ha]
  · rw [if_neg h, if_neg (mt hc.2 h), hb]

def shownFrom (limit : ℤ) (f : ℚ → ℚ) (s : ℤ) : ℚ := if s < limit then s else f s

theorem shownFrom_mono {f : ℚ → ℚ} (hf : Monotone f) (hlimit : (limit : ℚ) ≤ f limit) :
    Monotone (shownFrom limit f) := by
  intro s t h
  have h' : (s : ℚ) ≤ t := by exact_mod_cast h
  rw [shownFrom, shownFrom]
  split_ifs with hs ht ht
  · exact h'
  · have hs' : (s : ℚ) ≤ limit := by exact_mod_cast hs.le
    have ht' : (limit : ℚ) ≤ t := by exact_mod_cast not_lt.1 ht
    exact hs'.trans (hlimit.trans (hf ht'))
  · exact absurd (h.trans_lt ht) hs
  · exact hf h'

/-! The conversion to `double`. -/

theorem toDouble_two_pow : toDouble (2 ^ 63) = 2 ^ 63 := by
  simpa using (isDouble_mul_zpow (k := 1) (L := 63) (by decide)).toDouble_eq

theorem int64_toDouble (hs : 0 ≤ s) (hlt : s < 2 ^ 63) : 0 ≤ toDouble s ∧ toDouble s ≤ 2 ^ 63 := by
  have hlt' : (s : ℚ) ≤ 2 ^ 63 := by exact_mod_cast hlt.le
  refine ⟨toDouble_nonneg (by exact_mod_cast hs), ?_⟩
  rw [← toDouble_two_pow]
  exact toDouble_mono hlt'

/-! `formatSI`. -/

def siNear (p : ℕ) (x : ℚ) : ℚ := toDouble (toDouble x / 1000 ^ p) * 1000 ^ p

def siLimits (p : ℕ) : Limits := ⟨1000 ^ p * 9.995, 1000 ^ p * 99.95, 1000 ^ p * 999.5⟩

def siBands : List Band := powerBands 1000 siNear siLimits [] 1 5

def siLast : ℚ → ℚ := shown (siNear 6) (1000 ^ 6 / 10 ^ 2)

theorem siNear_near (p : ℕ) : Near (siNear p) := by
  have hpos : (0 : ℚ) < 1000 ^ p := by positivity
  constructor
  · intro x y h
    have hquotient := div_le_div_of_nonneg_right (toDouble_mono h) hpos.le
    exact mul_le_mul_of_nonneg_right (toDouble_mono hquotient) hpos.le
  · intro x hx
    -- each of the two roundings loses 2⁻⁵³ of its number
    have hn := toDouble_nonneg hx
    have hconvert := toDouble_error x
    have hdivide := mul_le_mul_of_nonneg_right (toDouble_error (toDouble x / 1000 ^ p)) hpos.le
    have hcancel := div_mul_cancel₀ (toDouble x) hpos.ne'
    rw [abs_of_nonneg hx] at hconvert
    rw [abs_of_nonneg (div_nonneg hn hpos.le), div_right_comm, div_mul_cancel₀ _ hpos.ne',
      ← abs_of_pos hpos, ← abs_mul, abs_of_pos hpos, sub_mul, hcancel] at hdivide
    have hsum := abs_add_le (siNear p x - toDouble x) (toDouble x - x)
    rw [sub_add_sub_cancel, siNear] at hsum
    rw [siNear]
    linarith [(abs_le.1 hconvert).2]

theorem siLimits_fit (p : ℕ) : (siLimits p).Fit 1000 (1000 ^ p) := by
  have hpos : (0 : ℚ) < 1000 ^ p := by positivity
  constructor <;> rw [siLimits] <;> push_cast <;> linarith

theorem siBands_ascending : ∃ meets, Ascending 1000 siBands meets siLast := by
  have hend : Ascending ((1000 : ℕ) ^ (1 + 5)) [] [] siLast := shown_mono (siNear_near 6) (by norm_num)
  have hbands := ascending_powerBands (by decide) (by decide) siNear_near siLimits_fit hend
    (by norm_num [firstValue, siLast])
  rw [Nat.cast_ofNat, pow_one] at hbands
  exact hbands

theorem si_printF (hs : 0 ≤ s) (hlt : s < 2 ^ 63) (hN : N ≤ 2) (htail : tail.length ≤ 2)
    (hpower : siPower tail = some p) (hstop : ∀ c ∈ tail, isNumeralChar c = false) :
    siValue (printInto 64 (printF N (toDouble (toDouble s / 1000 ^ p)) ++ tail)) =
      some (shown (siNear p) (1000 ^ p / 10 ^ N) s) := by
  obtain ⟨hn, hn'⟩ := int64_toDouble hs hlt
  have hone : (1 : ℚ) ≤ 1000 ^ p := one_le_pow₀ (by norm_num)
  have hquotient := toDouble_mono ((div_le_self hn hone).trans hn')
  rw [toDouble_two_pow] at hquotient
  exact value_printF (toDouble_nonneg (by positivity)) hquotient hN htail hpower hstop (by norm_num)

theorem value_formatSI (hlow : -2 ^ 63 ≤ s) (hlt : s < 2 ^ 63) :
    signedValue siValue (formatSIDouble s) = some (shownFrom 1000 (banded siBands siLast) s) := by
  have hk : (1e3 : ℚ) = 1000 ^ 1 := by norm_num
  have hM : (1e6 : ℚ) = 1000 ^ 2 := by norm_num
  have hG : (1e9 : ℚ) = 1000 ^ 3 := by norm_num
  have hT : (1e12 : ℚ) = 1000 ^ 4 := by norm_num
  have hP : (1e15 : ℚ) = 1000 ^ 5 := by norm_num
  have hE : (1e18 : ℚ) = 1000 ^ 6 := by norm_num
  rcases lt_or_ge s 1000 with hfirst | hfirst
  · simp only [formatSIDouble, formatSIWith, shownFrom, if_pos hfirst]
    exact signedValue_printD hlow hlt (show siPower [] = some 0 from rfl) fun _ => rfl
  · have hs : 0 ≤ s := by omega
    simp only [formatSIDouble, formatSIWith, shownFrom, if_neg hfirst.not_gt, hk, hM, hG, hT, hP, hE]
    refine signedValue_of_value ?_ fun _ => rfl
    iterate 15
      refine value_band (by rw [← Int.cast_lt (R := ℚ)]; norm_num [siLimits])
        (si_printF hs hlt (by decide) (by decide) rfl (by simp [isNumeralChar])) ?_
    exact si_printF hs hlt (by decide) (by decide) rfl (by simp [isNumeralChar])

theorem siShown_mono : Monotone (shownFrom 1000 (banded siBands siLast)) := by
  obtain ⟨meets, hmeets⟩ := siBands_ascending
  refine shownFrom_mono (banded_mono hmeets) (le_banded hmeets ?_)
  have hle := le_shown (k := 100) (q := 10) (x := 1000) (siNear_near 1) (by norm_num) (by decide)
    (by decide) (by norm_num)
  norm_num at hle
  norm_num [firstValue, siBands, powerBands]
  exact hle

/-! `formatIEC`. The division by a power of 1024 is exact. -/

def iecLimits (p : ℕ) : Limits := ⟨1024 ^ p * toDouble 9.995, 1024 ^ p * toDouble 99.95, 1024 ^ p * 1023.5⟩

def iecBands : List Band :=
  powerBands 1024 (fun _ => id) iecLimits [⟨1024 ^ 6 * toDouble 9.995, shown id (1024 ^ 6 / 10 ^ 2)⟩] 1 5

def iecLast : ℚ → ℚ := shown id (1024 ^ 6 / 10 ^ 1)

theorem id_near : Near id := ⟨monotone_id, fun x hx => by
  rw [id, sub_self, abs_zero]
  positivity⟩

theorem literal_near {c : ℚ} (hc : 0 ≤ c) (hc' : c ≤ 100) :
    c - 1 / 10 ^ 6 ≤ toDouble c ∧ toDouble c ≤ c + 1 / 10 ^ 6 := by
  have herror := toDouble_error c
  rw [abs_of_nonneg hc, abs_le] at herror
  constructor <;> linarith

theorem iecLimits_fit (p : ℕ) : (iecLimits p).Fit 1024 (1024 ^ p) := by
  have hpos : (0 : ℚ) < 1024 ^ p := by positivity
  obtain ⟨htwo, htwo'⟩ := literal_near (c := 9.995) (by norm_num) (by norm_num)
  obtain ⟨hone, hone'⟩ := literal_near (c := 99.95) (by norm_num) (by norm_num)
  constructor <;> rw [iecLimits] <;> push_cast <;> nlinarith

theorem iecBands_ascending : ∃ meets, Ascending 1024 iecBands meets iecLast := by
  obtain ⟨htwo, htwo'⟩ := literal_near (c := 9.995) (by norm_num) (by norm_num)
  have hexbi : Meeting ⟨1024 ^ 6 * toDouble 9.995, shown id (1024 ^ 6 / 10 ^ 2)⟩ iecLast
      (10 * 1024 ^ 6) :=
    meeting_shown (j := 1000) (k := 100) id_near id_near (by norm_num) (by norm_num) (by decide)
      (by decide) (by norm_num) (by norm_num) (by push_cast; linarith) (by push_cast; linarith)
  have hend : Ascending ((1024 : ℕ) ^ (1 + 5)) [⟨1024 ^ 6 * toDouble 9.995, shown id (1024 ^ 6 / 10 ^ 2)⟩]
      [10 * 1024 ^ 6] iecLast :=
    ⟨shown_mono id_near (by norm_num), by norm_num, hexbi, shown_mono id_near (by norm_num)⟩
  have hbands := ascending_powerBands (by decide) (by decide) (fun _ => id_near) iecLimits_fit hend
    (by norm_num [firstValue])
  rw [Nat.cast_ofNat, pow_one] at hbands
  exact hbands

theorem pow_eq_zpow (p : ℕ) : (1024 : ℚ) ^ p = 2 ^ (10 * p : ℤ) := by
  rw [zpow_mul]
  norm_num

theorem toDouble_mul_pow (x : ℚ) (p : ℕ) : toDouble (1024 ^ p * toDouble x) = 1024 ^ p * toDouble x := by
  rw [mul_comm, pow_eq_zpow, (isDouble_toDouble x).scale]

theorem toDouble_div_pow (x : ℚ) (p : ℕ) : toDouble (toDouble x / 1024 ^ p) = toDouble x / 1024 ^ p := by
  rw [pow_eq_zpow, div_eq_mul_inv, ← zpow_neg, (isDouble_toDouble x).scale]

theorem toDouble_1024 : toDouble 1024.0 = 1024 ^ 1 := by
  have h := (isDouble_int (k := 1024) (by decide)).toDouble_eq
  norm_num at h ⊢
  exact h

theorem toDouble_next (p : ℕ) : toDouble (1024 ^ p * 1024 ^ 1) = 1024 ^ (p + 1) := by
  rw [← toDouble_1024, toDouble_mul_pow, toDouble_1024, pow_add]

theorem toDouble_whole : toDouble 1023.5 = 1023.5 := by
  have h := (isDouble_mul_zpow (k := 2047) (L := -1) (by decide)).toDouble_eq
  norm_num at h ⊢
  exact h

theorem toDouble_mul_whole (p : ℕ) : toDouble (1024 ^ p * 1023.5) = 1024 ^ p * 1023.5 := by
  rw [← toDouble_whole, toDouble_mul_pow]

theorem toDouble_lt_1024 : toDouble s < 1024 ^ 1 ↔ s < 1024 := by
  rw [← toDouble_1024]
  constructor
  · intro h
    by_contra hle
    have hle' : (1024.0 : ℚ) ≤ s := by
      norm_num
      exact_mod_cast not_lt.1 hle
    exact absurd (toDouble_mono hle') h.not_ge
  · intro h
    have hs : (s : ℚ) ≤ 1023 := by exact_mod_cast Int.le_sub_one_of_lt h
    have hle := toDouble_mono hs
    have hexact := (isDouble_int (k := 1023) (by decide)).toDouble_eq
    rw [toDouble_1024]
    norm_num at hexact ⊢
    linarith

theorem iec_printF (hs : 0 ≤ s) (hlt : s < 2 ^ 63) (hN : N ≤ 2) (htail : tail.length ≤ 2)
    (hpower : iecPower tail = some p) (hstop : ∀ c ∈ tail, isNumeralChar c = false) :
    iecValue (printInto 64 (printF N (toDouble s / 1024 ^ p) ++ tail)) =
      some (shown id (1024 ^ p / 10 ^ N) (toDouble s)) := by
  obtain ⟨hn, hn'⟩ := int64_toDouble hs hlt
  have hone : (1 : ℚ) ≤ 1024 ^ p := one_le_pow₀ (by norm_num)
  have hvalue := value_printF (div_nonneg hn (zero_le_one.trans hone))
    ((div_le_self hn hone).trans hn') hN htail hpower hstop (show (0 : ℚ) < 1024 by norm_num)
  rw [div_mul_cancel₀ _ (zero_lt_one.trans_le hone).ne'] at hvalue
  exact hvalue

theorem iecValue_formatIEC (hs : 1024 ≤ s) (hlt : s < 2 ^ 63) :
    iecValue (formatIEC s) = some (banded iecBands iecLast (toDouble s)) := by
  simp only [formatIEC, toDouble_1024, toDouble_next, toDouble_mul_pow, toDouble_div_pow,
    toDouble_whole, toDouble_mul_whole, Nat.reduceAdd]
  rw [if_neg (mt toDouble_lt_1024.1 (by omega))]
  iterate 16
    refine value_band (by norm_num [iecLimits])
      (iec_printF (by omega) hlt (by decide) (by decide) rfl (by simp [isNumeralChar])) ?_
  exact iec_printF (by omega) hlt (by decide) (by decide) rfl (by simp [isNumeralChar])

theorem value_formatIEC (hlow : -2 ^ 63 ≤ s) (hlt : s < 2 ^ 63) :
    signedValue iecValue (formatIEC s) =
      some (shownFrom 1024 (fun x => banded iecBands iecLast (toDouble x)) s) := by
  rcases lt_or_ge s 1024 with hfirst | hfirst
  · simp only [formatIEC, toDouble_1024, shownFrom, if_pos hfirst, if_pos (toDouble_lt_1024.2 hfirst)]
    exact signedValue_printD hlow hlt (show iecPower [] = some 0 from rfl) fun _ => rfl
  · rw [shownFrom, if_neg hfirst.not_gt]
    exact signedValue_of_value (iecValue_formatIEC hfirst hlt) fun _ => rfl

theorem iecShown_mono : Monotone (shownFrom 1024 fun x => banded iecBands iecLast (toDouble x)) := by
  obtain ⟨meets, hmeets⟩ := iecBands_ascending
  refine shownFrom_mono ((banded_mono hmeets).comp toDouble_mono) ?_
  rw [(isDouble_int (k := 1024) (by decide)).toDouble_eq]
  refine le_banded hmeets ?_
  have hexact := toGrid_mul_int (q := 1024 / 100) (by norm_num) 100
  norm_num at hexact
  norm_num [firstValue, iecBands, powerBands, shown, hexact]

/-- The value that is printed of an `int64_t` never exceeds the one of a greater number. -/
theorem format_monotone {s t : ℤ} (hs : -2 ^ 63 ≤ s) (hle : s ≤ t) (ht : t < 2 ^ 63) :
    (∃ u v, signedValue siValue (formatSIDouble s) = some u ∧
      signedValue siValue (formatSIDouble t) = some v ∧ u ≤ v) ∧
    ∃ u v, signedValue iecValue (formatIEC s) = some u ∧
      signedValue iecValue (formatIEC t) = some v ∧ u ≤ v := by
  have hlow := hs.trans hle
  have hhigh := hle.trans_lt ht
  exact ⟨⟨_, _, value_formatSI hs hhigh, value_formatSI hlow ht, siShown_mono hle⟩,
    ⟨_, _, value_formatIEC hs hhigh, value_formatIEC hlow ht, iecShown_mono hle⟩⟩

/-- The last number printed with a digit behind the point, which `double` rounds to six
characters, and the first one printed without. -/
theorem format_monotone_threshold :
    ∃ u v, signedValue siValue (formatSIDouble 99949999999999999) = some u ∧
      signedValue siValue (formatSIDouble 99950000000000000) = some v ∧ u ≤ v :=
  (format_monotone (s := 99949999999999999) (t := 99950000000000000) (by decide) (by decide)
    (by decide)).1

example : formatSIDouble 99949999999999999 = ['1', '0', '0', '.', '0', 'P'] := by decide +kernel

theorem length_printInto_le (size : ℕ) (text : List Char) :
    (printInto size text).length ≤ text.length := by
  rw [printInto, List.length_take]
  exact Nat.min_le_right _ _

theorem length_ite {c : Prop} [Decidable c] {a b : List Char} {n : ℕ} (ha : c → a.length ≤ n)
    (hb : ¬ c → b.length ≤ n) : (if c then a else b).length ≤ n := by
  split
  · exact ha ‹c›
  · exact hb ‹¬ c›

theorem length_whole (hs : 0 ≤ s) (htail : tail.length = 2)
    (hlt : toDouble s < 1024 ^ p * 1023.5) :
    (printInto 64 (printF 0 (toDouble s / 1024 ^ p) ++ tail)).length ≤ 6 := by
  have hn := toDouble_nonneg (x := s) (by exact_mod_cast hs)
  have hpos : (0 : ℚ) < 1024 ^ p := by positivity
  have hquotient : toDouble s / 1024 ^ p < 1023.5 := by rwa [div_lt_iff₀' hpos]
  have hnumeral := (length_printF (N := 0) (k := 4) (div_nonneg hn hpos.le) (by decide)
    (by linarith)).2 rfl
  have htext := length_printInto_le 64 (printF 0 (toDouble s / 1024 ^ p) ++ tail)
  rw [List.length_append] at htext
  omega

/-- No `double` stands between the literal of a threshold and its rounding. -/
theorem length_pointed {c : ℚ} (hs : 0 ≤ s) (hN : N < 3) (htail : tail.length = 2)
    (hc : c * 10 ^ N ≤ 999.5) (hlt : toDouble s < 1024 ^ p * toDouble c) :
    (printInto 64 (printF N (toDouble s / 1024 ^ p) ++ tail)).length ≤ 6 := by
  have hn := toDouble_nonneg (x := s) (by exact_mod_cast hs)
  have hpos : (0 : ℚ) < 1024 ^ p := by positivity
  have hten : (0 : ℚ) < 10 ^ N := by positivity
  have hdouble : IsDouble (toDouble s / 1024 ^ p) := by
    rw [← toDouble_div_pow]
    exact isDouble_toDouble _
  have hquotient : toDouble s / 1024 ^ p < c :=
    hdouble.lt_of_lt_toDouble (by rwa [div_lt_iff₀' hpos])
  have hscaled := mul_lt_mul_of_pos_right hquotient hten
  have hnumeral := (length_printF (N := N) (k := 3) (div_nonneg hn hpos.le) hN (by linarith)).1
  have htext := length_printInto_le 64 (printF N (toDouble s / 1024 ^ p) ++ tail)
  rw [List.length_append] at htext
  omega

theorem length_formatIEC (hs : 0 ≤ s) (hlt : s < 2 ^ 63) : (formatIEC s).length ≤ 6 := by
  simp only [formatIEC, toDouble_1024, toDouble_next, toDouble_mul_pow, toDouble_div_pow,
    toDouble_whole, toDouble_mul_whole, Nat.reduceAdd]
  refine length_ite (fun h => ?_) fun _ => ?_
  · have hdigits := toDouble_lt_1024.1 h
    have hlen := (length_decimal_lt (N := 0) (m := s.natAbs) (k := 4) (by decide) (by omega)).2 rfl
    rw [printD_eq hs, List.append_nil]
    exact (length_printInto_le _ _).trans (by omega)
  iterate 5
    refine length_ite (length_pointed hs (by decide) rfl (by norm_num)) fun _ => ?_
    refine length_ite (length_pointed hs (by decide) rfl (by norm_num)) fun _ => ?_
    refine length_ite (length_whole hs rfl) fun _ => ?_
  refine length_ite (length_pointed hs (by decide) rfl (by norm_num)) fun h => ?_
  -- 9.995 Ei are no `int64_t`
  have hmax := (int64_toDouble hs hlt).2
  have hthreshold := (literal_near (c := 9.995) (by norm_num) (by norm_num)).1
  linarith

theorem formatIEC_accurate {s : ℤ} (hs : 0 ≤ s) (hlt : s < 2 ^ 63) : IecAccurate s (formatIEC s) := by
  have hs' : (0 : ℚ) ≤ s := by exact_mod_cast hs
  refine ⟨length_formatIEC hs hlt, ?_⟩
  rcases lt_or_ge s 1024 with hfirst | hfirst
  · refine ⟨s, ?_, by rw [sub_self, abs_zero]; positivity⟩
    simp only [formatIEC, toDouble_1024, if_pos (toDouble_lt_1024.2 hfirst)]
    exact value_printD hs hlt (show iecPower [] = some 0 from rfl)
  · obtain ⟨hn, hn'⟩ := int64_toDouble hs hlt
    have hconvert := toDouble_error s
    have hlow : (1024 : ℚ) ≤ toDouble s := by
      have h := mt toDouble_lt_1024.1 hfirst.not_gt
      rwa [pow_one, not_lt] at h
    have hshown : |banded iecBands iecLast (toDouble s) - toDouble s| ≤
        toDouble s / 200 - toDouble s / 10 ^ 6 := by
      refine banded_powerBands_error (by decide) (by decide) (fun _ => id_near) iecLimits_fit
        (fun hx => ?_) (by push_cast; linarith)
      push_cast at hx
      rw [banded, banded]
      split_ifs with h
      · exact shown_error id_near (by norm_num) (by linarith) (by linarith)
      · have hlimit : 1024 ^ 6 * toDouble 9.995 ≤ toDouble s := not_lt.1 h
        have hthreshold := (literal_near (c := 9.995) (by norm_num) (by norm_num)).1
        exact shown_error id_near (by norm_num) (by linarith) (by linarith)
    rw [abs_of_nonneg hs'] at hconvert
    refine ⟨_, iecValue_formatIEC hfirst hlt, ?_⟩
    have hsum := abs_add_le (banded iecBands iecLast (toDouble s) - toDouble s) (toDouble s - s)
    rw [sub_add_sub_cancel] at hsum
    linarith [(abs_le.1 hconvert).1, (abs_le.1 hconvert).2]

/-- The conversion to `double` reaches 1023.5 Pi here, which is printed as 1.00Ei. -/
theorem formatIEC_accurate_threshold : IecAccurate 1152358554653425663 (formatIEC 1152358554653425663) :=
  formatIEC_accurate (by decide) (by decide)

example : formatIEC 1152358554653425663 = ['1', '.', '0', '0', 'E', 'i'] := by decide +kernel

end Czy
