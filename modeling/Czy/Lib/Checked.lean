import Mathlib.Tactic

/-! Signed machine arithmetic in which an overflow is undefined. A value is kept
exactly, with a mark whether every operation that led to it stayed in the range. -/

/-- A value of the type with range [-M, M). -/
structure Checked (M : ℤ) where
  value : ℤ
  ok : Bool
  deriving DecidableEq, Repr

namespace Checked

variable {M : ℤ}

def inRange (M z : ℤ) : Bool := decide (-M ≤ z ∧ z < M)

theorem inRange_iff {z : ℤ} : inRange M z = true ↔ -M ≤ z ∧ z < M := decide_eq_true_iff

/-- A value that is there. -/
def of (M z : ℤ) : Checked M := ⟨z, inRange M z⟩

/-- The value was computed without an overflow. -/
def Is (x : Checked M) (z : ℤ) : Prop := x.value = z ∧ x.ok = true

instance : Coe ℤ (Checked M) := ⟨of M⟩

instance {n : ℕ} : OfNat (Checked M) n := ⟨of M n⟩

/-- The result of an operation on two values. -/
def result (x y : Checked M) (z : ℤ) : Checked M := ⟨z, x.ok && y.ok && inRange M z⟩

instance : Add (Checked M) := ⟨fun x y => result x y (x.value + y.value)⟩

instance : Sub (Checked M) := ⟨fun x y => result x y (x.value - y.value)⟩

instance : Mul (Checked M) := ⟨fun x y => result x y (x.value * y.value)⟩

/-- The quotient is truncated. -/
instance : Div (Checked M) :=
  ⟨fun x y => ⟨x.value.tdiv y.value, (result x y (x.value.tdiv y.value)).ok && y.value != 0⟩⟩

/-- The remainder is undefined where the quotient is. -/
instance : Mod (Checked M) := ⟨fun x y => ⟨x.value.tmod y.value, (x / y).ok⟩⟩

/-- The conversion to a wider type. -/
def widen {M : ℤ} (N : ℤ) (x : Checked M) : Checked N := ⟨x.value, x.ok⟩

/-- The conversion to a narrower type, which wraps around. -/
def narrow {M : ℤ} (N : ℤ) (x : Checked M) : Checked N := ⟨(x.value + N) % (2 * N) - N, x.ok⟩

variable {x y : Checked M}

@[simp] theorem of_ok {z : ℤ} : (of M z).ok = true ↔ -M ≤ z ∧ z < M := inRange_iff

@[simp] theorem ofNat_ok {n : ℕ} : (OfNat.ofNat n : Checked M).ok = true ↔ -M ≤ n ∧ n < M :=
  inRange_iff

theorem result_ok {z : ℤ} :
    (result x y z).ok = true ↔ (x.ok = true ∧ y.ok = true) ∧ -M ≤ z ∧ z < M := by
  simp only [result, Bool.and_eq_true, inRange_iff]

@[simp] theorem add_ok : (x + y).ok = true ↔ (x.ok = true ∧ y.ok = true) ∧
    -M ≤ x.value + y.value ∧ x.value + y.value < M := result_ok

@[simp] theorem sub_ok : (x - y).ok = true ↔ (x.ok = true ∧ y.ok = true) ∧
    -M ≤ x.value - y.value ∧ x.value - y.value < M := result_ok

@[simp] theorem mul_ok : (x * y).ok = true ↔ (x.ok = true ∧ y.ok = true) ∧
    -M ≤ x.value * y.value ∧ x.value * y.value < M := result_ok

@[simp] theorem div_ok : (x / y).ok = true ↔ ((x.ok = true ∧ y.ok = true) ∧
    -M ≤ x.value.tdiv y.value ∧ x.value.tdiv y.value < M) ∧ y.value ≠ 0 := by
  change ((result x y _).ok && y.value != 0) = true ↔ _
  rw [Bool.and_eq_true, result_ok, bne_iff_ne]

@[simp] theorem mod_ok : (x % y).ok = true ↔ (x / y).ok = true := Iff.rfl

/-- A value in the narrower range is kept. -/
theorem narrow_value {N : ℤ} (h : -N ≤ x.value) (h' : x.value < N) :
    (x.narrow N).value = x.value := by
  change (x.value + N) % (2 * N) - N = x.value
  rw [Int.emod_eq_of_lt (by omega) (by omega)]
  omega

/-! What is computed, operation by operation. -/

theorem of_is {z : ℤ} (hz : -M ≤ z ∧ z < M) : (of M z).Is z := ⟨rfl, of_ok.2 hz⟩

theorem lit_is (n : ℕ) (h : -M ≤ n ∧ (n : ℤ) < M) : (OfNat.ofNat n : Checked M).Is n :=
  ⟨rfl, ofNat_ok.2 h⟩

variable {a b : ℤ}

theorem Is.add (hx : x.Is a) (hy : y.Is b) (h : -M ≤ a + b ∧ a + b < M) : (x + y).Is (a + b) := by
  obtain ⟨rfl, hxo⟩ := hx
  obtain ⟨rfl, hyo⟩ := hy
  exact ⟨rfl, add_ok.2 ⟨⟨hxo, hyo⟩, h⟩⟩

theorem Is.sub (hx : x.Is a) (hy : y.Is b) (h : -M ≤ a - b ∧ a - b < M) : (x - y).Is (a - b) := by
  obtain ⟨rfl, hxo⟩ := hx
  obtain ⟨rfl, hyo⟩ := hy
  exact ⟨rfl, sub_ok.2 ⟨⟨hxo, hyo⟩, h⟩⟩

theorem Is.mul (hx : x.Is a) (hy : y.Is b) (h : -M ≤ a * b ∧ a * b < M) : (x * y).Is (a * b) := by
  obtain ⟨rfl, hxo⟩ := hx
  obtain ⟨rfl, hyo⟩ := hy
  exact ⟨rfl, mul_ok.2 ⟨⟨hxo, hyo⟩, h⟩⟩

theorem Is.div (hx : x.Is a) (hy : y.Is b) (hb : b ≠ 0)
    (h : -M ≤ a.tdiv b ∧ a.tdiv b < M) : (x / y).Is (a.tdiv b) := by
  obtain ⟨rfl, hxo⟩ := hx
  obtain ⟨rfl, hyo⟩ := hy
  exact ⟨rfl, div_ok.2 ⟨⟨⟨hxo, hyo⟩, h⟩, hb⟩⟩

theorem Is.mod (hx : x.Is a) (hy : y.Is b) (hb : b ≠ 0)
    (h : -M ≤ a.tdiv b ∧ a.tdiv b < M) : (x % y).Is (a.tmod b) := by
  obtain ⟨rfl, hxo⟩ := hx
  obtain ⟨rfl, hyo⟩ := hy
  exact ⟨rfl, div_ok.2 ⟨⟨⟨hxo, hyo⟩, h⟩, hb⟩⟩

theorem Is.div_of_nonneg (hx : x.Is a) (hy : y.Is b) (ha : 0 ≤ a) (hb : 0 < b) (h : a < M) :
    (x / y).Is (a / b) := by
  have hdiv := Int.tdiv_eq_ediv_of_nonneg (b := b) ha
  have hle := Int.ediv_le_self b ha
  have hnn := Int.ediv_nonneg ha hb.le
  rw [← hdiv] at hle hnn ⊢
  exact hx.div hy hb.ne' (by omega)

theorem Is.mod_of_nonneg (hx : x.Is a) (hy : y.Is b) (ha : 0 ≤ a) (hb : 0 < b) (h : a < M) :
    (x % y).Is (a % b) := by
  have hdiv := Int.tdiv_eq_ediv_of_nonneg (b := b) ha
  have hle := Int.ediv_le_self b ha
  have hnn := Int.ediv_nonneg ha hb.le
  rw [← hdiv] at hle hnn
  rw [← Int.tmod_eq_emod_of_nonneg ha]
  exact hx.mod hy hb.ne' (by omega)

theorem Is.widen {N : ℤ} (hx : x.Is a) : (x.widen N).Is a := hx

theorem Is.narrow {N : ℤ} (hx : x.Is a) (h : -N ≤ a) (h' : a < N) : (x.narrow N).Is a := by
  obtain ⟨rfl, hxo⟩ := hx
  exact ⟨narrow_value h h', hxo⟩

theorem Is.eq_of {z : ℤ} (h : x.Is z) (hz : -M ≤ z ∧ z < M) : x = of M z := by
  obtain ⟨v, o⟩ := x
  obtain ⟨hv, ho⟩ := h
  simp only at hv ho
  rw [hv, ho, of, inRange_iff.2 hz]

end Checked
