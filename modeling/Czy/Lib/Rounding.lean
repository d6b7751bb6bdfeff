import Mathlib.Data.Rat.Floor
import Mathlib.Tactic

/-! Rational numbers rounded to integers, half to even. -/

namespace Rounding

def roundHalfEven (x : ℚ) : ℤ :=
  let f := ⌊x⌋
  if x - f < 1 / 2 then f
  else if 1 / 2 < x - f then f + 1
  else if f % 2 = 0 then f
  else f + 1

variable {x : ℚ} {n : ℤ}

theorem roundHalfEven_error (x : ℚ) : |(roundHalfEven x : ℚ) - x| ≤ 1 / 2 := by
  have hle := Int.floor_le x
  have hlt := Int.lt_floor_add_one x
  unfold roundHalfEven
  simp only
  split_ifs <;> push_cast <;> rw [abs_le] <;> constructor <;> linarith

theorem roundHalfEven_le (h : x < n + 1 / 2) : roundHalfEven x ≤ n := by
  have herror := (abs_le.1 (roundHalfEven_error x)).2
  have hlt : (roundHalfEven x : ℚ) < (n + 1 : ℤ) := by
    push_cast
    linarith
  exact Int.lt_add_one_iff.1 (Int.cast_lt.1 hlt)

theorem le_roundHalfEven (h : n - 1 / 2 < x) : n ≤ roundHalfEven x := by
  have herror := (abs_le.1 (roundHalfEven_error x)).1
  have hlt : (n - 1 : ℤ) < (roundHalfEven x : ℚ) := by
    push_cast
    linarith
  have := Int.cast_lt.1 hlt
  omega

/-- A number of three digits loses at most half a percent. -/
theorem roundHalfEven_three_digits (hlow : 9995 / 100 ≤ x) (hhigh : x < 1999 / 2) :
    100 ≤ roundHalfEven x ∧ roundHalfEven x < 1000 ∧ |(roundHalfEven x : ℚ) - x| ≤ x / 200 := by
  have hge : 100 ≤ roundHalfEven x := le_roundHalfEven (by push_cast; linarith)
  have hle : roundHalfEven x ≤ 999 := roundHalfEven_le (by push_cast; linarith)
  refine ⟨hge, by omega, ?_⟩
  rcases le_or_gt 100 x with hx | hx
  · exact (roundHalfEven_error x).trans (by linarith)
  · -- below 100 it is rounded up, by no more than 0.05
    have hround : roundHalfEven x = 100 :=
      le_antisymm (roundHalfEven_le (by push_cast; linarith)) hge
    rw [hround, abs_le]
    push_cast
    constructor <;> linarith

end Rounding
