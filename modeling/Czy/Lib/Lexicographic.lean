import Mathlib.Data.List.Lex

/-! The lexicographic order of lists, from the first elements that differ and from the
lengths. -/

namespace Lexicographic

variable {α : Type*}

/-- The sign of `d a b` tells how `a` and `b` compare. -/
structure Signed [LT α] (d : α → α → ℤ) : Prop where
  neg : ∀ a b, d a b < 0 ↔ a < b
  zero : ∀ a b, d a b = 0 ↔ a = b
  swap : ∀ a b, d b a = -d a b

variable [DecidableEq α]

/-- `d` of the first elements that differ, of the first `n`; 0 where none do. -/
def firstDiff (d : α → α → ℤ) : List α → List α → ℕ → ℤ
  | a :: s, b :: t, n + 1 => if a = b then firstDiff d s t n else d a b
  | _, _, _ => 0

variable {d : α → α → ℤ} {s t : List α} {a b : α} {n k : ℕ}

@[simp] theorem firstDiff_nil_left : firstDiff d [] t n = 0 := by cases t <;> rfl

@[simp] theorem firstDiff_nil_right : firstDiff d s [] n = 0 := by cases s <;> rfl

@[simp] theorem firstDiff_zero : firstDiff d s t 0 = 0 := by cases s <;> cases t <;> rfl

theorem firstDiff_same : firstDiff d (a :: s) (a :: t) (n + 1) = firstDiff d s t n := if_pos rfl

theorem firstDiff_ne (h : a ≠ b) : firstDiff d (a :: s) (b :: t) (n + 1) = d a b := if_neg h

/-- What lies behind the first `n` elements is not looked at. -/
theorem firstDiff_take (h : n ≤ k) : firstDiff d (s.take k) t n = firstDiff d s t n := by
  induction s generalizing t n k with
  | nil => rw [List.take_nil]
  | cons a s ih =>
    cases n with
    | zero => rw [firstDiff_zero, firstDiff_zero]
    | succ n =>
      obtain ⟨k, rfl⟩ := Nat.exists_eq_succ_of_ne_zero (Nat.zero_lt_of_lt h).ne'
      cases t with
      | nil => rw [firstDiff_nil_right, firstDiff_nil_right]
      | cons b t => rw [List.take_succ_cons, firstDiff, firstDiff, ih (Nat.le_of_succ_le_succ h)]

variable [LT α]

theorem Signed.firstDiff_swap (hd : Signed d) (s t : List α) (n : ℕ) :
    firstDiff d t s n = -firstDiff d s t n := by
  induction s generalizing t n with
  | nil => simp
  | cons a s ih =>
    cases t with
    | nil => simp
    | cons b t =>
      cases n with
      | zero => simp
      | succ n =>
        by_cases hab : a = b
        · rw [hab, firstDiff_same, firstDiff_same, ih]
        · rw [firstDiff_ne hab, firstDiff_ne (Ne.symm hab), hd.swap]

theorem Signed.firstDiff_take_right (hd : Signed d) (h : n ≤ k) :
    firstDiff d s (t.take k) n = firstDiff d s t n := by
  rw [hd.firstDiff_swap, firstDiff_take h, hd.firstDiff_swap, Int.neg_neg]

theorem Signed.firstDiff_eq_zero (hd : Signed d) (hs : n ≤ s.length) (ht : n ≤ t.length) :
    firstDiff d s t n = 0 ↔ s.take n = t.take n := by
  induction n generalizing s t with
  | zero => simp
  | succ n ih =>
    cases s with
    | nil => cases hs
    | cons a s =>
      cases t with
      | nil => cases ht
      | cons b t =>
        rw [List.take_succ_cons, List.take_succ_cons, List.cons.injEq]
        by_cases hab : a = b
        · rw [hab, firstDiff_same, ih (Nat.le_of_succ_le_succ hs) (Nat.le_of_succ_le_succ ht),
            and_iff_right rfl]
        · rw [firstDiff_ne hab, hd.zero]
          exact iff_of_false hab fun h => hab h.1

theorem Signed.eq_iff (hd : Signed d) : s = t ↔ s.length = t.length ∧ firstDiff d s t s.length = 0 := by
  constructor
  · rintro rfl
    exact ⟨rfl, (hd.firstDiff_eq_zero le_rfl le_rfl).2 rfl⟩
  · rintro ⟨hlen, hzero⟩
    rw [hd.firstDiff_eq_zero le_rfl hlen.le, List.take_length, hlen, List.take_length] at hzero
    exact hzero

/-- Where the shorter of two lists is no beginning of the other, the first difference
decides; else the lengths do. -/
theorem Signed.lt_iff (hd : Signed d) (hirrefl : ∀ a : α, ¬ a < a) (s t : List α) :
    s < t ↔ firstDiff d s t (min s.length t.length) < 0 ∨
      firstDiff d s t (min s.length t.length) = 0 ∧ s.length < t.length := by
  induction s generalizing t with
  | nil => cases t <;> simp
  | cons a s ih =>
    cases t with
    | nil => simp
    | cons b t =>
      rw [List.cons_lt_cons_iff, List.length_cons, List.length_cons, Nat.add_min_add_right,
        Nat.add_lt_add_iff_right]
      by_cases hab : a = b
      · rw [hab, firstDiff_same, ← ih]
        exact ⟨fun h => h.elim (fun hlt => absurd hlt (hirrefl b)) And.right, fun h => .inr ⟨rfl, h⟩⟩
      · rw [firstDiff_ne hab, hd.neg, hd.zero]
        exact or_congr_right (iff_of_false (fun h => hab h.1) fun h => hab h.1)

end Lexicographic
