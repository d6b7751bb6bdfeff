import Czy.Sanity.LogStream

/-! Integers in a log line: what `convert` and `convert_hex` write is the numeral of the
value, and reads back as the value. -/

namespace Czy.LogStream

open Numeral

/-- A sign, then digits. -/
def readDecimal (text : List UInt8) : ℤ :=
  if text.head? = some 45 then -read 10 (text.tail.map fun c => c.toNat - 48)
  else read 10 (text.map fun c => c.toNat - 48)

def readHex (cs : List UInt8) : ℕ :=
  read 16 (cs.map fun c => if c.toNat < 58 then c.toNat - 48 else c.toNat - 55)

/-- The text of `v`: '-' for a negative number only, then the digits of its absolute value
without leading zeros. -/
def IsDecimal (v : ℤ) (text : List UInt8) : Prop :=
  ∃ ds, IsNumeral 10 v.natAbs ds ∧ text = (if v < 0 then [45] else []) ++ ds.map digitChar

def IsHex (n : ℕ) (text : List UInt8) : Prop :=
  ∃ ds, IsNumeral 16 n ds ∧ text = ds.map hexChar

/-- What `convert` is to leave behind: the text, a NUL, and the length of the text. -/
def Formats (v : ℤ) (r : Option (List UInt8 × ℕ)) : Prop :=
  ∃ text, r = some (text ++ [0], text.length) ∧ IsDecimal v text ∧ readDecimal text = v ∧
    text.length < kMaxNumSize

def FormatsHex (n : ℕ) (r : Option (List UInt8 × ℕ)) : Prop :=
  ∃ text, r = some (text, text.length) ∧ IsHex n text ∧ readHex text = n ∧ text.length ≤ 16

theorem hexChar_value : ∀ d < 16,
    (if (hexChar d).toNat < 58 then (hexChar d).toNat - 48 else (hexChar d).toNat - 55) = d := by decide

theorem digitChar_ne_minus : ∀ d < 10, digitChar d ≠ 45 := by decide

theorem readDecimal_decimalText (v : ℤ) : readDecimal (decimalText v) = v := by
  have hnum := numeral_isNumeral (b := 10) (by decide) v.natAbs
  have hread : read 10 (((numeral 10 v.natAbs).map digitChar).map fun c => c.toNat - 48) = v.natAbs := by
    rw [map_value digitChar_value hnum.digits, hnum.value]
  unfold decimalText readDecimal
  split_ifs with hv hminus hminus
  · rw [List.singleton_append, List.tail_cons, hread]
    omega
  · exact absurd rfl hminus
  · rw [List.nil_append, List.head?_map, Option.map_eq_some_iff] at hminus
    obtain ⟨d, hd, heq⟩ := hminus
    exact absurd heq (digitChar_ne_minus d (hnum.digits d (List.mem_of_head? hd)))
  · rw [List.nil_append, hread]
    omega

theorem readHex_hexText (n : ℕ) : readHex (hexText n) = n := by
  have hnum := numeral_isNumeral (b := 16) (by decide) n
  rw [readHex, hexText, map_value hexChar_value hnum.digits, hnum.value]

theorem decimalText_length_lt {v : ℤ} (hv : v.natAbs < 2 ^ 64) : (decimalText v).length < kMaxNumSize := by
  have hdigits : (numeral 10 v.natAbs).length ≤ 20 :=
    numeral_length_le (by decide) (by decide) (hv.trans_le (by decide))
  have hsign : (if v < 0 then [(45 : UInt8)] else []).length ≤ 1 := by split_ifs <;> simp
  unfold decimalText kMaxNumSize
  rw [List.length_append, List.length_map]
  omega

theorem hexText_length_le (n : UInt64) : (hexText n.toNat).length ≤ 16 := by
  rw [hexText, List.length_map]
  exact numeral_length_le (by decide) (by decide) n.toNat_lt

theorem convert_formats {T : Type} [IntegerType T] [Div T] [Mod T] [LT T] [DecidableEq T]
    [DecidableLT T] [OfNat T 0] [OfNat T 10] [LawfulIntegerType T] (v : T)
    (hv : (toInt v).natAbs < 2 ^ 64) : Formats (toInt v) (convert v) :=
  ⟨_, convert_eq v, ⟨_, numeral_isNumeral (by decide) _, rfl⟩, readDecimal_decimalText _,
    decimalText_length_lt hv⟩

/-- For every value of the four types and every pointer. -/
theorem integer_format_canonical :
    (∀ v : Int32, Formats v.toInt (convert v)) ∧ (∀ v : UInt32, Formats v.toNat (convert v)) ∧
      (∀ v : UInt64, Formats v.toNat (convert v)) ∧ (∀ v : Int64, Formats v.toInt (convert v)) ∧
        ∀ v : UInt64, FormatsHex v.toNat (convertHex v) := by
  refine ⟨fun v => convert_formats v ?_, fun v => convert_formats v ?_, fun v => convert_formats v ?_,
    fun v => convert_formats v ?_, fun v => ?_⟩
  · have := v.toInt_lt
    have := v.le_toInt
    change v.toInt.natAbs < _
    omega
  · have := v.toNat_lt
    change v.toNat < _
    omega
  · exact v.toNat_lt
  · have := v.toInt_lt
    have := v.le_toInt
    change v.toInt.natAbs < _
    omega
  · exact ⟨_, convertHex_eq v, ⟨_, numeral_isNumeral (by decide) _, rfl⟩, readHex_hexText _,
      hexText_length_le v⟩

end Czy.LogStream
