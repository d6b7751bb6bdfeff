import Czy.Spec.StringPiece
import Mathlib.Tactic

/-! The operators of a string piece compare its bytes in lexicographic order. -/

namespace Czy.StringPiece

open Lexicographic

variable {x y z : StringPiece}

def bytes (x : StringPiece) : List UInt8 := x.ptr.take x.length.toNat

theorem byteDiff_signed : Signed fun a b : UInt8 => (a.toNat : ℤ) - b.toNat where
  neg a b := by rw [UInt8.lt_iff_toNat_lt]; omega
  zero a b := by rw [← UInt8.toNat_inj]; omega
  swap a b := by omega

theorem length_bytes (x : StringPiece) : x.bytes.length = x.length.toNat := by
  have := x.length_le
  rw [bytes, List.length_take]
  omega

theorem memcmp_bytes {n : ℕ} (hx : n ≤ x.length.toNat) (hy : n ≤ y.length.toNat) :
    memcmp x.ptr y.ptr n = memcmp x.bytes y.bytes n := by
  unfold bytes memcmp
  rw [firstDiff_take hx, byteDiff_signed.firstDiff_take_right hy]

theorem memcmpShorter_eq (hx : 0 ≤ x.length) (hy : 0 ≤ y.length) :
    x.memcmpShorter y = memcmp x.bytes y.bytes (min x.bytes.length y.bytes.length) := by
  have := x.length_int
  have := y.length_int
  rw [memcmpShorter, length_bytes, length_bytes]
  split <;> rw [sizeOfInt_of_nonneg (by omega) (by omega), memcmp_bytes (by omega) (by omega)] <;>
    congr 1 <;> omega

theorem memcmpShorter_swap (hx : 0 ≤ x.length) (hy : 0 ≤ y.length) :
    y.memcmpShorter x = -x.memcmpShorter y := by
  rw [memcmpShorter_eq hy hx, memcmpShorter_eq hx hy, Nat.min_comm, memcmp,
    byteDiff_signed.firstDiff_swap]

theorem eq_iff_sign : x.eq y ↔ x.memcmpShorter y = 0 ∧ x.length = y.length := by
  rw [eq, Bool.and_eq_true, decide_eq_true_iff, decide_eq_true_iff, and_comm]
  refine and_congr_left fun hlen => ?_
  rw [memcmpShorter, hlen, ite_self]

theorem binaryPredicate_iff {cmp auxcmp : ℤ → ℤ → Prop} [DecidableRel cmp] [DecidableRel auxcmp] :
    binaryPredicate cmp auxcmp x y ↔
      auxcmp (x.memcmpShorter y) 0 ∨ x.memcmpShorter y = 0 ∧ cmp x.length y.length := by
  rw [binaryPredicate, Bool.or_eq_true, Bool.and_eq_true, decide_eq_true_iff, decide_eq_true_iff,
    decide_eq_true_iff]

theorem lt_iff_bytes (hx : 0 ≤ x.length) (hy : 0 ≤ y.length) : x.lt y ↔ x.bytes < y.bytes := by
  rw [lt, binaryPredicate_iff, memcmpShorter_eq hx hy,
    byteDiff_signed.lt_iff (fun a => by rw [UInt8.lt_iff_toNat_lt]; exact Nat.lt_irrefl _)]
  refine or_congr_right (and_congr_right fun _ => ?_)
  rw [length_bytes, length_bytes]
  omega

theorem eq_iff_bytes (hx : 0 ≤ x.length) (hy : 0 ≤ y.length) : x.eq y ↔ x.bytes = y.bytes := by
  rw [eq_iff_sign, memcmpShorter_eq hx hy, byteDiff_signed.eq_iff, and_comm,
    show x.length = y.length ↔ x.bytes.length = y.bytes.length by
      rw [length_bytes, length_bytes]; omega]
  refine and_congr_right fun hlen => ?_
  rw [← hlen, Nat.min_self, memcmp]

/-- `<` is a strict total order of the classes of `==`. -/
structure StrictTotalOrder (x y z : StringPiece) : Prop where
  eq_refl : x.eq x
  eq_symm : x.eq y → y.eq x
  eq_trans : x.eq y → y.eq z → x.eq z
  lt_congr_left : x.eq y → (x.lt z ↔ y.lt z)
  lt_congr_right : y.eq z → (x.lt y ↔ x.lt z)
  irrefl : x.eq y → ¬ x.lt y
  asymm : x.lt y → ¬ y.lt x
  trans : x.lt y → y.lt z → x.lt z
  total : x.lt y ∨ x.eq y ∨ y.lt x

/-- What the other operators say, in terms of `<` and `==`. -/
structure OperatorsAgree (x y : StringPiece) : Prop where
  ne : x.ne y ↔ ¬ x.eq y
  le : x.le y ↔ x.lt y ∨ x.eq y
  ge : x.ge y ↔ y.lt x ∨ x.eq y
  gt : x.gt y ↔ y.lt x
  compare_neg : x.compare y < 0 ↔ x.lt y
  compare_zero : x.compare y = 0 ↔ x.eq y
  compare_pos : 0 < x.compare y ↔ y.lt x

theorem strictTotalOrder (hx : 0 ≤ x.length) (hy : 0 ≤ y.length) (hz : 0 ≤ z.length) :
    StrictTotalOrder x y z := by
  have hswap := memcmpShorter_swap hx hy
  have htotal : x.lt y ∨ x.eq y ∨ y.lt x := by
    rw [lt, binaryPredicate_iff, binaryPredicate_iff, eq_iff_sign, hswap]
    omega
  constructor
  case total => exact htotal
  all_goals simp only [eq_iff_bytes, lt_iff_bytes, hx, hy, hz]
  case eq_symm => exact Eq.symm
  case eq_trans => exact Eq.trans
  case asymm => exact List.lt_asymm
  case trans => exact List.lt_trans
  case irrefl =>
    intro h
    rw [h]
    exact List.lt_irrefl _
  all_goals
    intro h
    rw [h]

theorem operatorsAgree (hx : 0 ≤ x.length) (hy : 0 ≤ y.length) : OperatorsAgree x y := by
  have hswap := memcmpShorter_swap hx hy
  constructor
  · rw [StringPiece.ne, Bool.not_eq_true', Bool.not_eq_true]
  all_goals simp only [le, ge, gt, lt, binaryPredicate_iff, eq_iff_sign, hswap]
  · omega
  · omega
  · omega
  all_goals
    simp only [compare]
    grind

theorem startsWith_iff (hx : 0 ≤ x.length) (hy : 0 ≤ y.length) :
    x.startsWith y ↔ ∃ t, x.bytes = y.bytes ++ t := by
  have hint := y.length_int
  rw [startsWith, Bool.and_eq_true, decide_eq_true_iff, decide_eq_true_iff,
    sizeOfInt_of_nonneg hy hint.2]
  constructor
  · rintro ⟨hle, hzero⟩
    rw [memcmp_bytes (by omega) le_rfl, memcmp, byteDiff_signed.firstDiff_eq_zero
      (by rw [length_bytes]; omega) (length_bytes y).ge, ← length_bytes, List.take_length] at hzero
    exact ⟨_, hzero ▸ (List.take_append_drop _ _).symm⟩
  · rintro ⟨t, ht⟩
    have hlen := congrArg List.length ht
    rw [List.length_append, length_bytes, length_bytes] at hlen
    refine ⟨by omega, ?_⟩
    rw [memcmp_bytes (by omega) le_rfl, memcmp, byteDiff_signed.firstDiff_eq_zero
      (by rw [length_bytes]; omega) (length_bytes y).ge, ← length_bytes, List.take_length, ht,
      List.take_left']
    rfl

/-- The order of the pieces is the order of their bytes, and a piece comes after each that it
starts with. -/
theorem lexicographic_order (hx : 0 ≤ x.length) (hy : 0 ≤ y.length) (hz : 0 ≤ z.length) :
    (x.lt y ↔ x.bytes < y.bytes) ∧ StrictTotalOrder x y z ∧ OperatorsAgree x y ∧
      (x.startsWith y ↔ ∃ t, x.bytes = y.bytes ++ t) ∧ (x.startsWith y → y.le x) := by
  refine ⟨lt_iff_bytes hx hy, strictTotalOrder hx hy hz, operatorsAgree hx hy,
    startsWith_iff hx hy, fun hstarts => ?_⟩
  obtain ⟨t, ht⟩ := (startsWith_iff hx hy).1 hstarts
  rw [(operatorsAgree hy hx).le, lt_iff_bytes hy hx, eq_iff_bytes hy hx, ht]
  exact List.le_iff_lt_or_eq.1 (List.IsPrefix.le (List.prefix_append _ _))

theorem lexicographic_order_nul :
    let x : StringPiece := ⟨[97, 0, 255], 3, by decide, by decide⟩
    let y : StringPiece := ⟨[97, 0, 255], 2, by decide, by decide⟩
    let z : StringPiece := ⟨[128], 1, by decide, by decide⟩
    (x.lt y ↔ x.bytes < y.bytes) ∧ StrictTotalOrder x y z ∧ OperatorsAgree x y ∧
      (x.startsWith y ↔ ∃ t, x.bytes = y.bytes ++ t) ∧ (x.startsWith y → y.le x) :=
  lexicographic_order (by decide) (by decide) (by decide)

end Czy.StringPiece
