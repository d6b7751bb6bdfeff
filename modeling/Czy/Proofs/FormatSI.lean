import Czy.Spec.FormatSI

/-! A number that `formatSI` prints in exact arithmetic is short, and read back it is off by half a
percent at most. -/

namespace Czy

open Numeral Rounding

/-- The power of 1000 that a suffix stands for. -/
def siPower : List Char → Option ℕ
  | [] => some 0
  | ['k'] => some 1
  | ['M'] => some 2
  | ['G'] => some 3
  | ['T'] => some 4
  | ['P'] => some 5
  | ['E'] => some 6
  | _ => none

def isNumeralChar (c : Char) : Bool := c.isDigit || c = '.'

/-- The number that a numeral with or without a decimal point denotes. -/
def readDecimal (text : List Char) : ℚ :=
  let whole := text.takeWhile Char.isDigit
  let frac := (text.dropWhile Char.isDigit).drop 1
  (read 10 ((whole ++ frac).map fun c => c.toNat - 48) : ℚ) / 10 ^ frac.length

/-- The number that a text denotes: its numeral times the power of the base that its suffix
stands for. -/
def suffixValue (power : List Char → Option ℕ) (base : ℚ) (text : List Char) : Option ℚ :=
  (power (text.dropWhile isNumeralChar)).map fun p =>
    readDecimal (text.takeWhile isNumeralChar) * base ^ p

def siValue : List Char → Option ℚ := suffixValue siPower 1000

/-- At most five characters, and at most half a percent from `s`. -/
def Accurate (s : ℤ) (text : List Char) : Prop :=
  text.length ≤ 5 ∧ ∃ v, siValue text = some v ∧ |v - s| ≤ (s : ℚ) / 200

def decimal (N m : ℕ) : List Char :=
  digitText (numeral 10 (m / 10 ^ N)) ++
    if N = 0 then [] else '.' :: digitText (padded 10 N (m % 10 ^ N))

variable {N m p : ℕ} {ds : List ℕ} {s : ℤ} {suffix : Char} {tail : List Char} {base x : ℚ}
  {power : List Char → Option ℕ}

theorem digitText_isDigit (h : ∀ d ∈ ds, d < 10) : ∀ c ∈ digitText ds, c.isDigit := by
  intro c hc
  obtain ⟨d, hd, rfl⟩ := List.mem_map.1 hc
  rw [Nat.isDigit_digitChar]
  exact decide_eq_true (h d hd)

theorem digitText_value (h : ∀ d ∈ ds, d < 10) :
    (digitText ds).map (fun c => c.toNat - 48) = ds := by
  rw [digitText, List.map_map]
  refine (List.map_congr_left fun d hd => ?_).trans (List.map_id ds)
  rw [Function.comp_apply, Nat.toNat_digitChar_of_lt_ten (h d hd), id, Nat.add_sub_cancel_left]

theorem numeral_lt : ∀ d ∈ numeral 10 m, d < 10 := (numeral_isNumeral (by decide) m).digits

theorem padded_digits : ∀ d ∈ padded 10 N m, d < 10 := fun _ => padded_lt (by decide)

theorem length_fraction (hN : 0 < N) (m : ℕ) : (padded 10 N (m % 10 ^ N)).length = N :=
  length_padded (numeral_length_le (by decide) hN (Nat.mod_lt _ (by positivity)))

theorem decimal_chars : ∀ c ∈ decimal N m, isNumeralChar c := by
  have hdigit : ∀ c : Char, c.isDigit → isNumeralChar c := fun c hc => by
    rw [isNumeralChar, hc, Bool.true_or]
  intro c hc
  rw [decimal, List.mem_append] at hc
  obtain hc | hc := hc
  · exact hdigit c (digitText_isDigit numeral_lt c hc)
  · split_ifs at hc
    · cases hc
    · obtain rfl | hc := List.mem_cons.1 hc
      · rfl
      · exact hdigit c (digitText_isDigit padded_digits c hc)

theorem readDecimal_decimal : readDecimal (decimal N m) = (m : ℚ) / 10 ^ N := by
  have hwhole := digitText_isDigit (numeral_lt (m := m / 10 ^ N))
  have hwhole_read : read 10 (numeral 10 (m / 10 ^ N)) = m / 10 ^ N :=
    (numeral_isNumeral (by decide) _).value
  simp only [readDecimal, decimal]
  rw [List.takeWhile_append_of_pos hwhole, List.dropWhile_append_of_pos hwhole]
  split_ifs with hN
  · subst hN
    simp only [List.takeWhile_nil, List.dropWhile_nil, List.drop_nil, List.append_nil,
      digitText_value numeral_lt, hwhole_read, List.length_nil]
    simp
  · have hdot : ('.').isDigit = false := rfl
    have hfrac := length_fraction (Nat.pos_of_ne_zero hN) m
    rw [List.takeWhile_cons, hdot, List.dropWhile_cons, hdot]
    simp only [Bool.false_eq_true, if_false, List.append_nil, List.drop_one, List.tail_cons,
      List.map_append, digitText_value numeral_lt, digitText_value padded_digits]
    rw [read_append, hwhole_read, read_padded (by decide), hfrac, Nat.div_add_mod', digitText,
      List.length_map, hfrac]

theorem split_decimal (htail : ∀ c ∈ tail, isNumeralChar c = false) :
    (decimal N m ++ tail).dropWhile isNumeralChar = tail ∧
      (decimal N m ++ tail).takeWhile isNumeralChar = decimal N m := by
  have hstop : tail.takeWhile isNumeralChar = [] ∧ tail.dropWhile isNumeralChar = tail := by
    cases tail with
    | nil => exact ⟨rfl, rfl⟩
    | cons c tail => simp [htail c List.mem_cons_self]
  rw [List.dropWhile_append_of_pos decimal_chars, List.takeWhile_append_of_pos decimal_chars,
    hstop.1, hstop.2, List.append_nil]
  exact ⟨rfl, rfl⟩

theorem suffixValue_decimal (hpower : power tail = some p)
    (htail : ∀ c ∈ tail, isNumeralChar c = false) :
    suffixValue power base (decimal N m ++ tail) = some ((m : ℚ) / 10 ^ N * base ^ p) := by
  obtain ⟨hdrop, htake⟩ := split_decimal (N := N) (m := m) htail
  rw [suffixValue, hdrop, htake, hpower, Option.map_some, readDecimal_decimal]

theorem length_decimal_lt {k : ℕ} (hN : N < k) (hm : m < 10 ^ k) :
    (decimal N m).length ≤ k + 1 ∧ (N = 0 → (decimal N m).length ≤ k) := by
  have hwhole : (numeral 10 (m / 10 ^ N)).length ≤ k - N := by
    refine numeral_length_le (by decide) (by omega) ?_
    rw [Nat.div_lt_iff_lt_mul (by positivity), ← pow_add, Nat.sub_add_cancel hN.le]
    exact hm
  rw [decimal, List.length_append, digitText, List.length_map]
  split_ifs with h0
  · rw [List.length_nil]
    omega
  · rw [List.length_cons, digitText, List.length_map, length_fraction (Nat.pos_of_ne_zero h0)]
    omega

theorem printF_decimal (hx : 0 ≤ x) (N : ℕ) :
    ∃ m : ℕ, printF N x = decimal N m ∧ (m : ℤ) = roundHalfEven (x * 10 ^ N) := by
  have hnonneg : 0 ≤ roundHalfEven (x * 10 ^ N) := by
    apply le_roundHalfEven
    have : (0 : ℚ) ≤ x * 10 ^ N := by positivity
    push_cast
    linarith
  obtain ⟨m, hm⟩ := Int.eq_ofNat_of_zero_le hnonneg
  refine ⟨m, ?_, hm.symm⟩
  rw [printF, hm, Int.toNat_natCast]
  rfl

theorem printD_eq (hs : 0 ≤ s) : printD s = decimal 0 s.natAbs ++ [] := by
  rw [printD, if_neg (by omega), decimal, if_pos rfl, pow_zero, Nat.div_one]
  simp

theorem printInto_short {text : List Char} (h : text.length ≤ 63) : printInto 64 text = text :=
  List.take_of_length_le h

theorem printF_accurate (hN : N ≤ 2) (hpower : siPower [suffix] = some p)
    (hsuffix : isNumeralChar suffix = false) (hlow : 9995 * 1000 ^ p ≤ s * 10 ^ N * 100)
    (hhigh : 2 * (s * 10 ^ N) < 1999 * 1000 ^ p) :
    Accurate s (printInto 64 (printF N ((s : ℚ) / 1000 ^ p) ++ [suffix])) := by
  have hlow' : (9995 * 1000 ^ p : ℚ) ≤ s * 10 ^ N * 100 := by exact_mod_cast hlow
  have hhigh' : (2 * (s * 10 ^ N) : ℚ) < 1999 * 1000 ^ p := by exact_mod_cast hhigh
  have hpos : (0 : ℚ) < 1000 ^ p := by positivity
  have hten : (0 : ℚ) < 10 ^ N := by positivity
  have hx : (s : ℚ) / 1000 ^ p * 10 ^ N = s * 10 ^ N / 1000 ^ p := by ring
  obtain ⟨hge, hlt, herror⟩ := roundHalfEven_three_digits (x := (s : ℚ) / 1000 ^ p * 10 ^ N)
    (by rw [hx, le_div_iff₀ hpos]; linarith) (by rw [hx, div_lt_iff₀ hpos]; linarith)
  have hs : (0 : ℚ) ≤ s := nonneg_of_mul_nonneg_left (show 0 ≤ (s : ℚ) * 10 ^ N by linarith) hten
  have hnonneg : (0 : ℚ) ≤ (s : ℚ) / 1000 ^ p := div_nonneg hs hpos.le
  obtain ⟨m, htext, hm⟩ := printF_decimal hnonneg N
  have hlen := (length_decimal_lt (k := 3) (N := N) (m := m) (by omega) (by omega)).1
  have htotal : (decimal N m ++ [suffix]).length ≤ 5 := by
    rw [List.length_append, List.length_singleton]
    omega
  rw [htext, printInto_short (by omega)]
  refine ⟨htotal, _, suffixValue_decimal hpower (by simpa using hsuffix), ?_⟩
  rw [← hm] at herror
  have hscale : (0 : ℚ) < 1000 ^ p / 10 ^ N := by positivity
  calc |(m : ℚ) / 10 ^ N * 1000 ^ p - s|
      = |(m : ℚ) - (s : ℚ) / 1000 ^ p * 10 ^ N| * (1000 ^ p / 10 ^ N) := by
        rw [← abs_of_pos hscale, ← abs_mul]
        congr 1
        field_simp
    _ ≤ (s : ℚ) / 1000 ^ p * 10 ^ N / 200 * (1000 ^ p / 10 ^ N) :=
        mul_le_mul_of_nonneg_right herror hscale.le
    _ = (s : ℚ) / 200 := by field_simp

theorem printD_accurate (h0 : 0 ≤ s) (h : s < 1000) : Accurate s (printInto 64 (printD s)) := by
  have hlen := (length_decimal_lt (k := 3) (N := 0) (m := s.natAbs) (by decide) (by omega)).2 rfl
  rw [printD_eq h0, printInto_short (by rw [List.append_nil]; omega)]
  refine ⟨by rw [List.append_nil]; omega, _, suffixValue_decimal (p := 0) rfl (by simp), ?_⟩
  have hs : (s.natAbs : ℚ) = s := by rw [Nat.cast_natAbs, abs_of_nonneg h0]
  have hs0 : (0 : ℚ) ≤ s := by exact_mod_cast h0
  rw [hs, pow_zero, pow_zero, div_one, mul_one, sub_self, abs_zero]
  positivity

theorem accurate_ite {c : Prop} [Decidable c] {a b : List Char} (ha : c → Accurate s a)
    (hb : ¬ c → Accurate s b) : Accurate s (if c then a else b) := by
  split
  · exact ha ‹c›
  · exact hb ‹¬ c›

/-- The thresholds stand where one more digit would be printed: between two of them there are
three digits, rounded as they are. -/
theorem formatSI_accurate {s : ℤ} (h0 : 0 ≤ s) (h : s < 2 ^ 63) : Accurate s (formatSI s) := by
  have hk : (1e3 : ℚ) = 1000 ^ 1 := by norm_num
  have hM : (1e6 : ℚ) = 1000 ^ 2 := by norm_num
  have hG : (1e9 : ℚ) = 1000 ^ 3 := by norm_num
  have hT : (1e12 : ℚ) = 1000 ^ 4 := by norm_num
  have hP : (1e15 : ℚ) = 1000 ^ 5 := by norm_num
  have hE : (1e18 : ℚ) = 1000 ^ 6 := by norm_num
  simp only [formatSI, formatSIWith, id, hk, hM, hG, hT, hP, hE]
  refine accurate_ite (printD_accurate h0) fun _ => ?_
  iterate 15
    refine accurate_ite (fun _ => printF_accurate (by decide) rfl rfl (by omega) (by omega))
      fun _ => ?_
  exact printF_accurate (by decide) rfl rfl (by omega) (by omega)

theorem formatSI_accurate_threshold : Accurate 9995 (formatSI 9995) :=
  formatSI_accurate (by decide) (by decide)

end Czy
