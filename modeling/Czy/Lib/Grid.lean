import Czy.Lib.Rounding

/-! Numbers rounded to the multiples of a unit. Where the unit changes with their size, the
rounding keeps the order as long as neighbouring bands do not cross a number where they meet. -/

namespace Rounding

variable {q x y : ℚ}

theorem roundHalfEven_int (n : ℤ) : roundHalfEven n = n := by
  apply le_antisymm
  · exact roundHalfEven_le (by linarith)
  · exact le_roundHalfEven (by linarith)

theorem roundHalfEven_mono : Monotone roundHalfEven := by
  intro x y h
  by_contra hlt
  rw [not_le] at hlt
  have hx := abs_le.1 (roundHalfEven_error x)
  have hy := abs_le.1 (roundHalfEven_error y)
  have hgap : (roundHalfEven y : ℚ) + 1 ≤ roundHalfEven x := by exact_mod_cast hlt
  -- only two halves could be rounded apart, and those are the same number
  have hxy : x = y := by linarith
  rw [hxy] at hlt
  exact lt_irrefl _ hlt

def toGrid (q x : ℚ) : ℚ := roundHalfEven (x / q) * q

theorem toGrid_mono (hq : 0 < q) (h : x ≤ y) : toGrid q x ≤ toGrid q y := by
  have hround := roundHalfEven_mono (div_le_div_of_nonneg_right h hq.le)
  exact mul_le_mul_of_nonneg_right (by exact_mod_cast hround) hq.le

theorem toGrid_le (hq : 0 < q) {k : ℤ} (h : x < (k + 1 / 2) * q) : toGrid q x ≤ k * q := by
  have hround : roundHalfEven (x / q) ≤ k := roundHalfEven_le (by rwa [div_lt_iff₀ hq])
  exact mul_le_mul_of_nonneg_right (by exact_mod_cast hround) hq.le

theorem le_toGrid (hq : 0 < q) {k : ℤ} (h : (k - 1 / 2) * q < x) : k * q ≤ toGrid q x := by
  have hround : k ≤ roundHalfEven (x / q) := le_roundHalfEven (by rwa [lt_div_iff₀ hq])
  exact mul_le_mul_of_nonneg_right (by exact_mod_cast hround) hq.le

theorem toGrid_mul_int (hq : q ≠ 0) (k : ℤ) : toGrid q (k * q) = k * q := by
  rw [toGrid, mul_div_cancel_right₀ _ hq, roundHalfEven_int]

theorem toGrid_scale {c : ℚ} (hc : c ≠ 0) : toGrid (q * c) (x * c) = toGrid q x * c := by
  rw [toGrid, toGrid, mul_div_mul_right _ _ hc, mul_assoc]

/-- Half a unit is lost at most. -/
theorem toGrid_error (hq : 0 < q) (x : ℚ) : |toGrid q x - x| ≤ q / 2 := by
  have hsub : toGrid q x - x = (roundHalfEven (x / q) - x / q) * q := by
    rw [toGrid, sub_mul, div_mul_cancel₀ x hq.ne']
  have hround := mul_le_mul_of_nonneg_right (roundHalfEven_error (x / q)) hq.le
  rw [hsub, abs_mul, abs_of_pos hq]
  linarith

/-- From 99.9 units on it is less than half a percent. -/
theorem toGrid_relative (hq : 0 < q) (h : 999 / 10 * q ≤ x) :
    |toGrid q x - x| ≤ x / 200 - q / 400 := by
  rcases lt_or_ge x (201 / 2 * q) with hx | hx
  · -- rounded to 100 units
    have hle : toGrid q x ≤ (100 : ℤ) * q := toGrid_le hq (by push_cast; linarith)
    have hge : (100 : ℤ) * q ≤ toGrid q x := le_toGrid hq (by push_cast; linarith)
    push_cast at hle hge
    rw [abs_le]
    constructor <;> linarith
  · have herror := toGrid_error hq x
    linarith

/-- What the numbers below `limit` become. -/
structure Band where
  limit : ℚ
  value : ℚ → ℚ

def banded : List Band → (ℚ → ℚ) → ℚ → ℚ
  | [], last, x => last x
  | band :: bands, last, x => if x < band.limit then band.value x else banded bands last x

def firstValue (bands : List Band) (last : ℚ → ℚ) : ℚ → ℚ := (bands.head?.map Band.value).getD last

/-- The numbers below the limit become `meet` at most, and those from the limit on at least. -/
structure Meeting (band : Band) (next : ℚ → ℚ) (meet : ℚ) : Prop where
  below : ∀ x < band.limit, band.value x ≤ meet
  above : ∀ x, band.limit ≤ x → meet ≤ next x

/-- Neighbouring bands meet, each pair further up than the one before it. -/
def Ascending : ℚ → List Band → List ℚ → (ℚ → ℚ) → Prop
  | _, [], _, last => Monotone last
  | _, _ :: _, [], _ => False
  | low, band :: bands, meet :: meets, last =>
    Monotone band.value ∧ low ≤ meet ∧ Meeting band (firstValue bands last) meet ∧
      Ascending meet bands meets last

/-- Nothing from a meeting on falls below it. -/
theorem le_banded {low x : ℚ} {last : ℚ → ℚ} {bands : List Band} {meets : List ℚ}
    (h : Ascending low bands meets last) (hfirst : low ≤ firstValue bands last x) :
    low ≤ banded bands last x := by
  induction bands generalizing low meets with
  | nil => exact hfirst
  | cons band bands ih =>
    cases meets with
    | nil => exact h.elim
    | cons meet meets =>
      obtain ⟨-, hlow, hmeet, hrest⟩ := h
      rw [banded]
      split_ifs with hx
      · exact hfirst
      · exact hlow.trans (ih hrest (hmeet.above x (not_lt.1 hx)))

theorem banded_mono {low : ℚ} {last : ℚ → ℚ} {bands : List Band} {meets : List ℚ}
    (h : Ascending low bands meets last) : Monotone (banded bands last) := by
  induction bands generalizing low meets with
  | nil => exact h
  | cons band bands ih =>
    cases meets with
    | nil => exact h.elim
    | cons meet meets =>
      obtain ⟨hvalue, -, hmeet, hrest⟩ := h
      intro x y hxy
      rw [banded, banded]
      split_ifs with hx hy hy
      · exact hvalue hxy
      · have habove := le_banded hrest (hmeet.above y (not_lt.1 hy))
        exact (hmeet.below x hx).trans habove
      · exact absurd (hxy.trans_lt hy) hx
      · exact ih hrest hxy

/-- Nearly the identity: monotone, and a millionth of a number is lost at most. -/
structure Near (f : ℚ → ℚ) : Prop where
  mono : Monotone f
  error : ∀ x, 0 ≤ x → |f x - x| ≤ x / 10 ^ 6

/-- What comes out when a number is nearly kept and then rounded to multiples of `q`. -/
def shown (f : ℚ → ℚ) (q : ℚ) (x : ℚ) : ℚ := toGrid q (f x)

variable {f : ℚ → ℚ}

theorem shown_mono (hf : Near f) (hq : 0 < q) : Monotone (shown f q) :=
  fun _ _ h => toGrid_mono hq (hf.mono h)

theorem shown_le (hf : Near f) (hq : 0 < q) {k : ℤ} (hk : 0 ≤ k) (hk' : k ≤ 2000)
    (h : x < (k + 2 / 5) * q) : shown f q x ≤ k * q := by
  have hk : (0 : ℚ) ≤ k := by exact_mod_cast hk
  have hk' : (k : ℚ) ≤ 2000 := by exact_mod_cast hk'
  have hbound : (0 : ℚ) ≤ (k + 2 / 5) * q := by positivity
  have herror := (abs_le.1 (hf.error _ hbound)).2
  have hle := hf.mono h.le
  refine toGrid_le hq ?_
  nlinarith

theorem le_shown (hf : Near f) (hq : 0 < q) {k : ℤ} (hk : 1 ≤ k) (hk' : k ≤ 2000)
    (h : (k - 2 / 5) * q ≤ x) : k * q ≤ shown f q x := by
  have hk : (1 : ℚ) ≤ k := by exact_mod_cast hk
  have hk' : (k : ℚ) ≤ 2000 := by exact_mod_cast hk'
  have hbound : (0 : ℚ) ≤ (k - 2 / 5) * q := mul_nonneg (by linarith) hq.le
  have herror := (abs_le.1 (hf.error _ hbound)).1
  have hle := hf.mono h
  refine le_toGrid hq ?_
  nlinarith

/-- Two bands meet in a common multiple of their units, with the limit close to it on both sides. -/
theorem meeting_shown {g : ℚ → ℚ} {r limit meet : ℚ} {j k : ℤ} (hf : Near f) (hg : Near g)
    (hq : 0 < q) (hr : 0 < r) (hj : 0 ≤ j ∧ j ≤ 2000) (hk : 1 ≤ k ∧ k ≤ 2000) (hmeet : meet = j * q)
    (hmeet' : meet = k * r) (hbelow : limit ≤ (j + 2 / 5) * q) (habove : (k - 2 / 5) * r ≤ limit) :
    Meeting ⟨limit, shown f q⟩ (shown g r) meet := by
  constructor
  · intro x hx
    rw [hmeet]
    exact shown_le hf hq hj.1 hj.2 (hx.trans_le hbelow)
  · intro x hx
    rw [hmeet']
    exact le_shown hg hr hk.1 hk.2 (habove.trans hx)

/-- Between 99.91 and 1100 units half a percent covers what both roundings lose. -/
theorem shown_error (hf : Near f) (hq : 0 < q) (hlow : 9991 / 100 * q ≤ x) (hhigh : x ≤ 1100 * q) :
    |shown f q x - x| ≤ x / 200 - x / 10 ^ 6 := by
  have herror := hf.error x (by linarith)
  have hgrid := toGrid_relative (x := f x) hq (by linarith [(abs_le.1 herror).1])
  have hsum := abs_add_le (toGrid q (f x) - f x) (f x - x)
  rw [sub_add_sub_cancel] at hsum
  rw [shown]
  linarith [(abs_le.1 herror).2]

/-- Where a number over a power `b` of a base shows two digits behind the point, one, and none. -/
structure Limits where
  two : ℚ
  one : ℚ
  whole : ℚ

structure Limits.Fit (l : Limits) (base : ℕ) (b : ℚ) : Prop where
  two_ge : 9994 / 1000 * b ≤ l.two
  two_le : l.two ≤ 9996 / 1000 * b
  one_ge : 9994 / 100 * b ≤ l.one
  one_le : l.one ≤ 9996 / 100 * b
  whole_ge : (base - 3 / 5) * b ≤ l.whole
  whole_le : l.whole ≤ (base - 2 / 5) * b

/-- The bands of `n` powers of a base from `p` on. -/
def powerBands (base : ℕ) (near : ℕ → ℚ → ℚ) (limits : ℕ → Limits) (rest : List Band) :
    ℕ → ℕ → List Band
  | _, 0 => rest
  | p, n + 1 =>
    ⟨(limits p).two, shown (near p) (base ^ p / 10 ^ 2)⟩ ::
      ⟨(limits p).one, shown (near p) (base ^ p / 10 ^ 1)⟩ ::
      ⟨(limits p).whole, shown (near p) (base ^ p / 10 ^ 0)⟩ ::
      powerBands base near limits rest (p + 1) n

section Powers

variable {base p n : ℕ} {near : ℕ → ℚ → ℚ} {limits : ℕ → Limits} {rest : List Band}
  {meets : List ℚ} {last : ℚ → ℚ}

theorem firstValue_powerBands
    (hrest : firstValue rest last = shown (near (p + n)) (base ^ (p + n) / 10 ^ 2)) :
    firstValue (powerBands base near limits rest p n) last = shown (near p) (base ^ p / 10 ^ 2) := by
  cases n with
  | zero => exact hrest
  | succ n => rfl

/-- The bands of a power meet at its tens, its hundreds and the next power. -/
theorem ascending_powerBands (hbase : 1000 ≤ base) (hbase' : base ≤ 1024)
    (hnear : ∀ p, Near (near p)) (hlimits : ∀ p, (limits p).Fit base (base ^ p))
    (hrest : Ascending ((base : ℚ) ^ (p + n)) rest meets last)
    (hfirst : firstValue rest last = shown (near (p + n)) (base ^ (p + n) / 10 ^ 2)) :
    ∃ meets, Ascending ((base : ℚ) ^ p) (powerBands base near limits rest p n) meets last := by
  induction n generalizing p with
  | zero => exact ⟨meets, hrest⟩
  | succ n ih =>
    rw [← Nat.add_assoc, Nat.add_right_comm] at hrest hfirst
    obtain ⟨meets', hmeets'⟩ := ih hrest hfirst
    have hbase₀ : (1000 : ℚ) ≤ base := by exact_mod_cast hbase
    have hbase₁ : (base : ℚ) ≤ 1024 := by exact_mod_cast hbase'
    have hpos : (0 : ℚ) < (base : ℚ) ^ p := by positivity
    have hnext : (base : ℚ) ^ (p + 1) = base * base ^ p := pow_succ' _ _
    have hroom : 1000 * (base : ℚ) ^ p ≤ base * base ^ p := by nlinarith
    obtain ⟨htwo, htwo', hone, hone', hwhole, hwhole'⟩ := hlimits p
    have hq (N : ℕ) : (0 : ℚ) < (base : ℚ) ^ p / 10 ^ N := by positivity
    have htens : Meeting ⟨(limits p).two, shown (near p) (base ^ p / 10 ^ 2)⟩
        (shown (near p) (base ^ p / 10 ^ 1)) (10 * base ^ p) :=
      meeting_shown (j := 1000) (k := 100) (hnear p) (hnear p) (hq 2) (hq 1) (by decide) (by decide)
        (by push_cast; linarith) (by push_cast; linarith) (by push_cast; linarith)
        (by push_cast; linarith)
    have hhundreds : Meeting ⟨(limits p).one, shown (near p) (base ^ p / 10 ^ 1)⟩
        (shown (near p) (base ^ p / 10 ^ 0)) (100 * base ^ p) :=
      meeting_shown (j := 1000) (k := 100) (hnear p) (hnear p) (hq 1) (hq 0) (by decide) (by decide)
        (by push_cast; linarith) (by push_cast; linarith) (by push_cast; linarith)
        (by push_cast; linarith)
    have hpower : Meeting ⟨(limits p).whole, shown (near p) (base ^ p / 10 ^ 0)⟩
        (firstValue (powerBands base near limits rest (p + 1) n) last) (base ^ (p + 1)) := by
      rw [firstValue_powerBands hfirst, hnext]
      exact meeting_shown (j := base) (k := 100) (hnear p) (hnear (p + 1)) (hq 0) (by positivity)
        (by omega) (by decide) (by push_cast; linarith) (by push_cast; linarith)
        (by push_cast; linarith) (by push_cast; linarith)
    exact ⟨10 * base ^ p :: 100 * base ^ p :: base ^ (p + 1) :: meets',
      shown_mono (hnear p) (hq 2), by linarith, htens,
      shown_mono (hnear p) (hq 1), by linarith, hhundreds,
      shown_mono (hnear p) (hq 0), by linarith, hpower, hmeets'⟩

/-- A base of 1000 is just large enough for the rounding before the next power. -/
theorem banded_powerBands_error {x : ℚ} (hbase : 1000 ≤ base) (hbase' : base ≤ 1024)
    (hnear : ∀ p, Near (near p)) (hlimits : ∀ p, (limits p).Fit base (base ^ p))
    (hrest : 9994 / 10000 * (base : ℚ) ^ (p + n) ≤ x →
      |banded rest last x - x| ≤ x / 200 - x / 10 ^ 6)
    (hx : 9994 / 10000 * (base : ℚ) ^ p ≤ x) :
    |banded (powerBands base near limits rest p n) last x - x| ≤ x / 200 - x / 10 ^ 6 := by
  induction n generalizing p with
  | zero => exact hrest hx
  | succ n ih =>
    rw [← Nat.add_assoc, Nat.add_right_comm] at hrest
    have hbase₀ : (1000 : ℚ) ≤ base := by exact_mod_cast hbase
    have hbase₁ : (base : ℚ) ≤ 1024 := by exact_mod_cast hbase'
    have hpos : (0 : ℚ) < (base : ℚ) ^ p := by positivity
    have hnext : (base : ℚ) ^ (p + 1) = base * base ^ p := pow_succ' _ _
    have hroom : 1000 * (base : ℚ) ^ p ≤ base * base ^ p := by nlinarith
    have hroom' : (base : ℚ) * base ^ p ≤ 1024 * base ^ p := by nlinarith
    obtain ⟨htwo, htwo', hone, hone', hwhole, hwhole'⟩ := hlimits p
    simp only [powerBands, banded]
    split_ifs with h2 h1 h0
    · exact shown_error (hnear p) (by positivity) (by linarith) (by linarith)
    · exact shown_error (hnear p) (by positivity) (by linarith) (by linarith)
    · exact shown_error (hnear p) (by positivity) (by linarith) (by linarith)
    · exact ih hrest (by rw [hnext]; linarith)

end Powers

end Rounding
