import Czy.Lib.Grid
import Mathlib.Data.Int.Log

/-! Rounding to the 53 binary digits of a `double`, half to even. No bound is put on the exponent:
neither overflow nor subnormal numbers are modelled. -/

namespace Rounding

/-- The last of 53 digits. -/
def ulp (x : ℚ) : ℚ := 2 ^ (Int.log 2 |x| - 52)

def toDouble (x : ℚ) : ℚ := toGrid (ulp x) x

variable {x y c : ℚ} {L : ℤ}

theorem two_zpow_pos (L : ℤ) : (0 : ℚ) < 2 ^ L := zpow_pos two_pos L

theorem ulp_pos (x : ℚ) : 0 < ulp x := two_zpow_pos _

theorem zpow_eq_ulp (L : ℤ) : (2 : ℚ) ^ L = 2 ^ 52 * 2 ^ (L - 52) := by
  have hsplit := zpow_add₀ (show (2 : ℚ) ≠ 0 from two_ne_zero) 52 (L - 52)
  rw [add_sub_cancel] at hsplit
  rw [hsplit]
  norm_num

theorem zpow_succ_eq_ulp (L : ℤ) : (2 : ℚ) ^ (L + 1) = 2 ^ 53 * 2 ^ (L - 52) := by
  rw [zpow_add_one₀ two_ne_zero, zpow_eq_ulp]
  ring

/-- A number lies between two powers of 2, the lower one 2⁵² of its last digits. -/
theorem abs_bounds (hx : x ≠ 0) : 2 ^ 52 * ulp x ≤ |x| ∧ |x| < 2 ^ 53 * ulp x := by
  have hle := Int.zpow_log_le_self (b := 2) (by decide) (abs_pos.2 hx)
  have hlt := Int.lt_zpow_succ_log_self (b := 2) (by decide) |x|
  rw [ulp, ← zpow_eq_ulp, ← zpow_succ_eq_ulp]
  exact ⟨hle, hlt⟩

theorem log_eq (hle : 2 ^ L ≤ |x|) (hlt : |x| < 2 ^ (L + 1)) : Int.log 2 |x| = L := by
  have hpos : 0 < |x| := (two_zpow_pos L).trans_le hle
  have hlow := (Int.zpow_le_iff_le_log (b := 2) (by decide) hpos).1 (by exact_mod_cast hle)
  have hhigh := (Int.lt_zpow_iff_log_lt (b := 2) (by decide) hpos).1 (by exact_mod_cast hlt)
  omega

/-! The numbers that are kept as they are. -/

def IsDouble (x : ℚ) : Prop := ∃ k : ℤ, x = k * ulp x

theorem IsDouble.toDouble_eq (h : IsDouble x) : toDouble x = x := by
  obtain ⟨k, hk⟩ := h
  have hgrid := toGrid_mul_int (ulp_pos x).ne' k
  rw [← hk] at hgrid
  exact hgrid

theorem isDouble_zero : IsDouble 0 := ⟨0, by norm_num⟩

/-- Any number of at most 53 digits. -/
theorem isDouble_mul_zpow {k : ℤ} (hk : |k| < 2 ^ 53) : IsDouble (k * 2 ^ L) := by
  rcases eq_or_ne k 0 with rfl | hk0
  · simpa using isDouble_zero
  have hk' : |(k : ℚ)| < 2 ^ 53 := by exact_mod_cast hk
  have habs : |(k : ℚ) * 2 ^ L| < 2 ^ (L + 53) := by
    rw [abs_mul, abs_of_pos (two_zpow_pos L), zpow_add₀ two_ne_zero, mul_comm]
    exact mul_lt_mul_of_pos_left (by exact_mod_cast hk') (two_zpow_pos L)
  have hpos : 0 < |(k : ℚ) * 2 ^ L| :=
    abs_pos.2 (mul_ne_zero (Int.cast_ne_zero.2 hk0) (two_zpow_pos L).ne')
  have hlog := (Int.lt_zpow_iff_log_lt (b := 2) (by decide) hpos).1 (by exact_mod_cast habs)
  obtain ⟨d, hd⟩ := Int.le.dest (show Int.log 2 |(k : ℚ) * 2 ^ L| - 52 ≤ L by omega)
  refine ⟨k * 2 ^ d, ?_⟩
  -- the factor's digits go to the integer
  rw [ulp, Int.cast_mul, mul_assoc, Int.cast_pow, Int.cast_ofNat, ← zpow_natCast,
    ← zpow_add₀ two_ne_zero, add_comm, hd]

theorem isDouble_int {k : ℤ} (hk : |k| < 2 ^ 53) : IsDouble k := by
  simpa using isDouble_mul_zpow (L := 0) hk

theorem toDouble_zero : toDouble 0 = 0 := isDouble_zero.toDouble_eq

theorem toDouble_bounds (hx : x ≠ 0) : 2 ^ 52 * ulp x ≤ |toDouble x| ∧ |toDouble x| ≤ 2 ^ 53 * ulp x := by
  obtain ⟨hle, hlt⟩ := abs_bounds hx
  have hq := ulp_pos x
  rcases lt_or_gt_of_ne hx with hneg | hpos
  · rw [abs_of_neg hneg] at hle hlt
    have hhigh : toDouble x ≤ (-2 ^ 52 : ℤ) * ulp x := toGrid_le hq (by push_cast; linarith)
    have hlow : (-2 ^ 53 : ℤ) * ulp x ≤ toDouble x := le_toGrid hq (by push_cast; linarith)
    push_cast at hhigh hlow
    rw [abs_of_neg (by linarith)]
    constructor <;> linarith
  · rw [abs_of_pos hpos] at hle hlt
    have hhigh : toDouble x ≤ (2 ^ 53 : ℤ) * ulp x := toGrid_le hq (by push_cast; linarith)
    have hlow : (2 ^ 52 : ℤ) * ulp x ≤ toDouble x := le_toGrid hq (by push_cast; linarith)
    push_cast at hhigh hlow
    rw [abs_of_pos (by linarith)]
    constructor <;> linarith

theorem isDouble_toDouble (x : ℚ) : IsDouble (toDouble x) := by
  rcases eq_or_ne x 0 with rfl | hx
  · rw [toDouble_zero]
    exact isDouble_zero
  obtain ⟨-, hle⟩ := toDouble_bounds hx
  have hq := ulp_pos x
  have hk : toDouble x = roundHalfEven (x / ulp x) * ulp x := rfl
  have habs : |roundHalfEven (x / ulp x)| ≤ 2 ^ 53 := by
    rw [hk, abs_mul, abs_of_pos hq] at hle
    exact_mod_cast le_of_mul_le_mul_right hle hq
  rw [hk]
  rcases habs.lt_or_eq with hlt | heq
  · exact isDouble_mul_zpow hlt
  · -- rounded up to the next power of 2
    obtain ⟨k, hround, hlt⟩ : ∃ k : ℤ, roundHalfEven (x / ulp x) = k * 2 ∧ |k| < 2 ^ 53 := by
      rcases eq_or_eq_neg_of_abs_eq heq with h | h
      · exact ⟨2 ^ 52, h, by decide⟩
      · exact ⟨-2 ^ 52, h, by decide⟩
    have hshift : ((k * 2 : ℤ) : ℚ) * ulp x = k * 2 ^ (Int.log 2 |x| - 52 + 1) := by
      rw [zpow_add_one₀ two_ne_zero, ulp]
      push_cast
      ring
    rw [hround, hshift]
    exact isDouble_mul_zpow hlt

/-- A power of 2 moves the digits, not the rounding. -/
theorem toDouble_scale (x : ℚ) (L : ℤ) : toDouble (x * 2 ^ L) = toDouble x * 2 ^ L := by
  rcases eq_or_ne x 0 with rfl | hx
  · rw [zero_mul, toDouble_zero, zero_mul]
  have hpos := two_zpow_pos L
  obtain ⟨hle, hlt⟩ := abs_bounds hx
  rw [ulp, ← zpow_eq_ulp] at hle
  rw [ulp, ← zpow_succ_eq_ulp] at hlt
  have hlog : Int.log 2 |x * 2 ^ L| = Int.log 2 |x| + L := by
    apply log_eq
    · rw [abs_mul, abs_of_pos hpos, zpow_add₀ two_ne_zero]
      exact mul_le_mul_of_nonneg_right hle hpos.le
    · rw [abs_mul, abs_of_pos hpos, add_right_comm, zpow_add₀ two_ne_zero]
      exact mul_lt_mul_of_pos_right hlt hpos
  have hulp : ulp (x * 2 ^ L) = ulp x * 2 ^ L := by
    rw [ulp, hlog, ulp, ← zpow_add₀ two_ne_zero, sub_add_eq_add_sub]
  rw [toDouble, hulp, toGrid_scale hpos.ne', toDouble]

theorem IsDouble.scale (h : IsDouble x) (L : ℤ) : toDouble (x * 2 ^ L) = x * 2 ^ L := by
  rw [toDouble_scale, h.toDouble_eq]

/-! Error and order. -/

theorem toDouble_error (x : ℚ) : |toDouble x - x| ≤ |x| / 2 ^ 53 := by
  rcases eq_or_ne x 0 with rfl | hx
  · rw [toDouble_zero]
    norm_num
  have herror := toGrid_error (ulp_pos x) x
  have hle := (abs_bounds hx).1
  rw [toDouble]
  linarith

theorem toDouble_nonneg (h : 0 ≤ x) : 0 ≤ toDouble x := by
  have hgrid := le_toGrid (k := 0) (ulp_pos x) (x := x) (by linarith [ulp_pos x])
  rwa [Int.cast_zero, zero_mul] at hgrid

theorem toDouble_nonpos (h : x ≤ 0) : toDouble x ≤ 0 := by
  have hgrid := toGrid_le (k := 0) (ulp_pos x) (x := x) (by linarith [ulp_pos x])
  rwa [Int.cast_zero, zero_mul] at hgrid

/-- Numbers of different lengths have a power of 2 between them, which both roundings respect. -/
theorem abs_toDouble_le (hx : x ≠ 0) (hy : y ≠ 0) (h : Int.log 2 |x| < Int.log 2 |y|) :
    |toDouble x| ≤ |toDouble y| := by
  have hle := (toDouble_bounds hx).2
  have hge := (toDouble_bounds hy).1
  rw [ulp, ← zpow_succ_eq_ulp] at hle
  rw [ulp, ← zpow_eq_ulp] at hge
  have hpower : (2 : ℚ) ^ (Int.log 2 |x| + 1) ≤ 2 ^ Int.log 2 |y| :=
    zpow_le_zpow_right₀ one_le_two (by omega)
  exact hle.trans (hpower.trans hge)

theorem toDouble_mono : Monotone toDouble := by
  intro x y hxy
  rcases le_or_gt x 0 with hx | hx
  · rcases le_or_gt 0 y with hy | hy
    · exact (toDouble_nonpos hx).trans (toDouble_nonneg hy)
    -- both negative: the greater number is the shorter one
    have hlog : Int.log 2 |y| ≤ Int.log 2 |x| :=
      Int.log_mono_right (abs_pos.2 hy.ne) (by rw [abs_of_neg hy, abs_of_nonpos hx]; linarith)
    rcases hlog.eq_or_lt with heq | hlt
    · have hgrid := toGrid_mono (ulp_pos x) hxy
      rwa [toDouble, toDouble, show ulp y = ulp x by rw [ulp, ulp, heq]]
    · have habs := abs_toDouble_le hy.ne (hxy.trans_lt hy).ne hlt
      rw [abs_of_nonpos (toDouble_nonpos hy.le), abs_of_nonpos (toDouble_nonpos hx)] at habs
      linarith
  · have hy := hx.trans_le hxy
    have hlog : Int.log 2 |x| ≤ Int.log 2 |y| :=
      Int.log_mono_right (abs_pos.2 hx.ne') (by rwa [abs_of_pos hx, abs_of_pos hy])
    rcases hlog.eq_or_lt with heq | hlt
    · have hgrid := toGrid_mono (ulp_pos x) hxy
      rwa [toDouble, toDouble, show ulp y = ulp x by rw [ulp, ulp, heq]]
    · have habs := abs_toDouble_le hx.ne' hy.ne' hlt
      rwa [abs_of_nonneg (toDouble_nonneg hx.le), abs_of_nonneg (toDouble_nonneg hy.le)] at habs

/-- Between a number and its rounding there is no other `double`. -/
theorem IsDouble.lt_of_lt_toDouble (h : IsDouble y) (hlt : y < toDouble c) : y < c := by
  by_contra hle
  rw [not_lt] at hle
  have hround := toDouble_mono hle
  rw [h.toDouble_eq] at hround
  exact absurd hround hlt.not_ge

end Rounding
