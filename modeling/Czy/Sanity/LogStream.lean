import Czy.Lib.Numeral
import Czy.Spec.LogStream

/-! The text that `convert` and `convert_hex` write. -/

namespace Czy

/-- The operators of an integer type on its values: division truncates. -/
class LawfulIntegerType (T : Type) [IntegerType T] [Div T] [Mod T] [LT T] [OfNat T 0] [OfNat T 10] :
    Prop where
  toInt_div : ∀ i : T, toInt (i / 10) = (toInt i).tdiv 10
  toInt_mod : ∀ i : T, toInt (i % 10) = (toInt i).tmod 10
  eq_zero_iff : ∀ i : T, i = 0 ↔ toInt i = 0
  lt_zero_iff : ∀ i : T, i < 0 ↔ toInt i < 0

open LawfulIntegerType

instance : LawfulIntegerType Int32 where
  toInt_div i := Int32.toInt_div_of_ne_right i 10 (by decide)
  toInt_mod i := Int32.toInt_mod i 10
  eq_zero_iff i := Int32.toInt_inj.symm
  lt_zero_iff i := Int32.lt_iff_toInt_lt

instance : LawfulIntegerType Int64 where
  toInt_div i := Int64.toInt_div_of_ne_right i 10 (by decide)
  toInt_mod i := Int64.toInt_mod i 10
  eq_zero_iff i := Int64.toInt_inj.symm
  lt_zero_iff i := Int64.lt_iff_toInt_lt

instance : LawfulIntegerType UInt32 where
  toInt_div i := by
    change ((i / 10).toNat : ℤ) = (i.toNat : ℤ).tdiv 10
    rw [UInt32.toNat_div, Int.natCast_div, Int.tdiv_eq_ediv_of_nonneg (Int.natCast_nonneg _)]
    rfl
  toInt_mod i := by
    change ((i % 10).toNat : ℤ) = (i.toNat : ℤ).tmod 10
    rw [UInt32.toNat_mod, Int.ofNat_tmod]
    rfl
  eq_zero_iff i := by
    rw [← UInt32.toNat_inj]
    exact Int.natCast_eq_zero.symm
  lt_zero_iff i := iff_of_false (UInt32.not_lt_zero) (not_lt.2 (Int.natCast_nonneg _))

instance : LawfulIntegerType UInt64 where
  toInt_div i := by
    change ((i / 10).toNat : ℤ) = (i.toNat : ℤ).tdiv 10
    rw [UInt64.toNat_div, Int.natCast_div, Int.tdiv_eq_ediv_of_nonneg (Int.natCast_nonneg _)]
    rfl
  toInt_mod i := by
    change ((i % 10).toNat : ℤ) = (i.toNat : ℤ).tmod 10
    rw [UInt64.toNat_mod, Int.ofNat_tmod]
    rfl
  eq_zero_iff i := by
    rw [← UInt64.toNat_inj]
    exact Int.natCast_eq_zero.symm
  lt_zero_iff i := iff_of_false (UInt64.not_lt_zero) (not_lt.2 (Int.natCast_nonneg _))

namespace LogStream

open Numeral

def digitChar (d : ℕ) : UInt8 := UInt8.ofNat (48 + d)

/-- The decimal numeral of `v`, behind a sign when it is negative. -/
def decimalText (v : ℤ) : List UInt8 :=
  (if v < 0 then [45] else []) ++ (numeral 10 v.natAbs).map digitChar

def hexChar (d : ℕ) : UInt8 := if d < 10 then UInt8.ofNat (48 + d) else UInt8.ofNat (55 + d)

def hexText (n : ℕ) : List UInt8 := (numeral 16 n).map hexChar

theorem zero_eq {k : ℤ} (hk : k.natAbs < 10) : zero k = some (digitChar k.natAbs) := by
  obtain ⟨n, rfl | rfl⟩ := k.eq_nat_or_neg
  all_goals
    rw [show Int.natAbs _ = n by simp] at hk ⊢
    interval_cases n <;> rfl

theorem map_value {b : ℕ} {char : ℕ → UInt8} {value : UInt8 → ℕ} (h : ∀ d < b, value (char d) = d)
    {ds : List ℕ} (hds : ∀ d ∈ ds, d < b) : (ds.map char).map value = ds := by
  rw [List.map_map]
  exact (List.map_congr_left fun d hd => h d (hds d hd)).trans (List.map_id ds)

theorem digitChar_value : ∀ d < 10, (digitChar d).toNat - 48 = d := by decide

theorem digitsHex_eq {d : ℕ} (hd : d < 16) : digitsHex[d]? = some (hexChar d) := by
  interval_cases d <;> rfl

variable {T : Type} [IntegerType T] [Div T] [Mod T] [LT T] [DecidableEq T] [OfNat T 0] [OfNat T 10]
  [LawfulIntegerType T]

/-- The loop writes the digits of the absolute value, whatever the sign. -/
theorem convertLoop_eq : ∀ {fuel : ℕ} {i : T}, (toInt i).natAbs < fuel →
    convertLoop fuel i = some ((reversed 10 (toInt i).natAbs).map digitChar) := by
  intro fuel
  induction fuel with
  | zero => intro i h; exact absurd h (Nat.not_lt_zero _)
  | succ fuel ih =>
    intro i h
    have hmod : (toInt (i % 10)).natAbs = (toInt i).natAbs % 10 := by
      rw [toInt_mod, Int.natAbs_tmod]
      rfl
    have hdiv : (toInt (i / 10)).natAbs = (toInt i).natAbs / 10 := by
      rw [toInt_div, Int.natAbs_tdiv]
      rfl
    have hdone : i / 10 = 0 ↔ (toInt i).natAbs / 10 = 0 := by
      rw [eq_zero_iff, ← Int.natAbs_eq_zero, hdiv]
    rw [convertLoop, zero_eq (by rw [hmod]; omega), reversed_step (by decide), hmod]
    simp only [Option.bind_eq_bind, Option.bind_some, ne_eq, hdone]
    by_cases hq : (toInt i).natAbs / 10 = 0
    · simp [hq]
    · rw [if_pos hq, if_neg hq, ih (by rw [hdiv]; omega), hdiv]
      rfl

theorem convert_eq [DecidableLT T] (value : T) :
    convert value = some (decimalText (toInt value) ++ [0], (decimalText (toInt value)).length) := by
  unfold convert decimalText
  rw [convertLoop_eq (Nat.lt_succ_self _)]
  simp only [Option.bind_eq_bind, Option.bind_some, lt_zero_iff]
  split_ifs <;> simp [numeral]

theorem convertHexLoop_eq : ∀ {fuel : ℕ} {i : UInt64}, i.toNat < fuel →
    convertHexLoop fuel i = some ((reversed 16 i.toNat).map hexChar) := by
  intro fuel
  induction fuel with
  | zero => intro i h; exact absurd h (Nat.not_lt_zero _)
  | succ fuel ih =>
    intro i h
    have hmod : (i % 16).toNat = i.toNat % 16 := UInt64.toNat_mod i 16
    have hdiv : (i / 16).toNat = i.toNat / 16 := UInt64.toNat_div i 16
    have hdone : i / 16 = 0 ↔ i.toNat / 16 = 0 := by
      rw [← hdiv, ← UInt64.toNat_inj]
      rfl
    rw [convertHexLoop, hmod, digitsHex_eq (by omega), reversed_step (by decide)]
    simp only [Option.bind_eq_bind, Option.bind_some, ne_eq, hdone]
    by_cases hq : i.toNat / 16 = 0
    · simp [hq]
    · rw [if_pos hq, if_neg hq, ih (by rw [hdiv]; omega), hdiv]
      rfl

theorem convertHex_eq (value : UInt64) :
    convertHex value = some (hexText value.toNat, (hexText value.toNat).length) := by
  unfold convertHex hexText
  rw [convertHexLoop_eq (Nat.lt_succ_self _)]
  simp [numeral]

end LogStream

end Czy
