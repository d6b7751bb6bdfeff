import Mathlib.Data.Nat.Digits.Lemmas
import Mathlib.Tactic

/-! Numerals as they are written: the leading digit first, and one digit for zero. -/

namespace Numeral

variable {b n : ℕ}

/-- The digits as repeated division finds them, the last one first. -/
def reversed (b n : ℕ) : List ℕ := if n = 0 then [0] else Nat.digits b n

def numeral (b n : ℕ) : List ℕ := (reversed b n).reverse

/-- The number that the digits stand for. -/
def read (b : ℕ) (ds : List ℕ) : ℕ := ds.foldl (fun n d => d + b * n) 0

/-- The digits of `n` in base `b`, with no leading zero. -/
structure IsNumeral (b n : ℕ) (ds : List ℕ) : Prop where
  nonempty : ds ≠ []
  digits : ∀ d ∈ ds, d < b
  leading : ds.head? = some 0 → ds = [0]
  value : read b ds = n

theorem reversed_step (hb : 1 < b) (n : ℕ) :
    reversed b n = n % b :: if n / b = 0 then [] else reversed b (n / b) := by
  unfold reversed
  by_cases hn : n = 0
  · simp [hn]
  · rw [if_neg hn, Nat.digits_eq_cons_digits_div hb hn]
    by_cases hq : n / b = 0
    · rw [if_pos hq, hq, Nat.digits_zero]
    · rw [if_neg hq, if_neg hq]

theorem reversed_lt (hb : 1 < b) {d : ℕ} (hd : d ∈ reversed b n) : d < b := by
  unfold reversed at hd
  split_ifs at hd
  · rw [List.mem_singleton.1 hd]
    omega
  · exact Nat.digits_lt_base hb hd

theorem ofDigits_reversed (b n : ℕ) : Nat.ofDigits b (reversed b n) = n := by
  unfold reversed
  split_ifs with hn
  · simp [hn]
  · exact Nat.ofDigits_digits b n

theorem reversed_ne_nil (b n : ℕ) : reversed b n ≠ [] := by
  unfold reversed
  split_ifs with hn
  · simp
  · exact Nat.digits_ne_nil_iff_ne_zero.2 hn

theorem read_reverse (b : ℕ) (ds : List ℕ) : read b ds.reverse = Nat.ofDigits b ds := by
  rw [read, List.foldl_reverse, Nat.ofDigits_eq_foldr]
  rfl

theorem numeral_isNumeral (hb : 1 < b) (n : ℕ) : IsNumeral b n (numeral b n) where
  nonempty := by simpa [numeral] using reversed_ne_nil b n
  digits d hd := reversed_lt hb (List.mem_reverse.1 hd)
  leading hzero := by
    unfold numeral reversed at *
    split_ifs at * with hn
    · rfl
    · rw [List.head?_reverse, List.getLast?_eq_getLast_of_ne_nil
        (Nat.digits_ne_nil_iff_ne_zero.2 hn)] at hzero
      exact absurd (Option.some.inj hzero) (Nat.getLast_digit_ne_zero b hn)
  value := by rw [numeral, read_reverse, ofDigits_reversed]

/-- A word has few digits. -/
theorem numeral_length_le (hb : 1 < b) {k : ℕ} (hk : 0 < k) (hn : n < b ^ k) :
    (numeral b n).length ≤ k := by
  rw [numeral, List.length_reverse, reversed]
  split_ifs
  · exact hk
  · exact (Nat.digits_length_le_iff hb n).2 hn

/-- The numeral in at least `w` digits. -/
def padded (b w n : ℕ) : List ℕ := List.replicate (w - (numeral b n).length) 0 ++ numeral b n

theorem read_concat (b : ℕ) (ds : List ℕ) (d : ℕ) : read b (ds ++ [d]) = d + b * read b ds := by
  rw [read, List.foldl_append]
  rfl

theorem read_append (b : ℕ) (ds es : List ℕ) :
    read b (ds ++ es) = read b ds * b ^ es.length + read b es := by
  induction es using List.reverseRecOn with
  | nil => simp [read]
  | append_singleton es e ih =>
    rw [← List.append_assoc, read_concat, ih, read_concat, List.length_append,
      List.length_singleton, pow_succ]
    ring

theorem read_replicate_append (b k : ℕ) (ds : List ℕ) :
    read b (List.replicate k 0 ++ ds) = read b ds := by
  induction k with
  | zero => rfl
  | succ k ih =>
    rw [List.replicate_succ, List.cons_append]
    simpa [read] using ih

theorem read_padded (hb : 1 < b) (w n : ℕ) : read b (padded b w n) = n := by
  rw [padded, read_replicate_append, (numeral_isNumeral hb n).value]

theorem padded_lt (hb : 1 < b) {w d : ℕ} (hd : d ∈ padded b w n) : d < b := by
  rcases List.mem_append.1 hd with hzero | hd
  · rw [List.eq_of_mem_replicate hzero]
    omega
  · exact (numeral_isNumeral hb n).digits d hd

theorem length_padded {w : ℕ} (h : (numeral b n).length ≤ w) : (padded b w n).length = w := by
  rw [padded, List.length_append, List.length_replicate]
  omega

/-- A number of more than `k` digits is `b ^ k` at least. -/
theorem lt_length_numeral_iff (hb : 1 < b) {k : ℕ} (hk : 0 < k) :
    k < (numeral b n).length ↔ b ^ k ≤ n := by
  rw [numeral, List.length_reverse, reversed]
  split_ifs with hn
  · have hpow : 0 < b ^ k := Nat.pow_pos (by omega)
    rw [List.length_singleton]
    omega
  · exact Nat.lt_digits_length_iff hb n

end Numeral
