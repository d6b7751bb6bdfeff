import Mathlib.Algebra.Order.Ring.Nat
import Mathlib.Data.List.Basic
import Mathlib.Tactic.Ring

/-! A queue served in batches from its front, where a full batch doubles the next. How far an
element stands from the front after each change of the queue. -/

namespace Batches

variable {α : Type*} [DecidableEq α] {l l' : List α} {a b : α} {n k j : ℕ}

/-- What `k` full batches take, the first of which is of size `n`. -/
def taken (n k : ℕ) : ℕ := n * (2 ^ k - 1)

theorem taken_zero (n : ℕ) : taken n 0 = 0 := by
  rw [taken, pow_zero, Nat.sub_self, Nat.mul_zero]

theorem taken_succ (n k : ℕ) : taken n (k + 1) = n + taken (2 * n) k := by
  have hpos : 0 < 2 ^ k := Nat.two_pow_pos k
  have hsplit : 2 ^ (k + 1) - 1 = 1 + 2 * (2 ^ k - 1) := by
    rw [pow_succ]
    omega
  rw [taken, taken, hsplit]
  ring

/-- A batch that does not reach the element brings it nearer by its size. -/
theorem idxOf_after_batch (ha : a ∈ l) (hn : n ≤ l.idxOf a) (l' : List α) :
    a ∈ l.drop n ∧ (l.drop n ++ l').idxOf a + n = l.idxOf a := by
  have hlen : (l.take n).length = n :=
    List.length_take_of_le (hn.trans (List.idxOf_lt_length_iff.2 ha).le)
  have hnot : a ∉ l.take n := by
    intro hin
    have hlt := List.idxOf_lt_length_iff.2 hin
    rw [hlen] at hlt
    have heq : l.idxOf a = (l.take n).idxOf a := by
      conv_lhs => rw [← List.take_append_drop n l]
      exact List.idxOf_append_of_mem hin
    omega
  have hin : a ∈ l.drop n := by
    rw [← List.take_append_drop n l] at ha
    exact (List.mem_append.1 ha).resolve_left hnot
  refine ⟨hin, ?_⟩
  have hwhole : l.idxOf a = n + (l.drop n).idxOf a := by
    conv_lhs => rw [← List.take_append_drop n l]
    rw [List.idxOf_append_of_notMem hnot, hlen]
  rw [List.idxOf_append_of_mem hin, hwhole, Nat.add_comm]

/-- The elements before it leave, and it comes nearer. -/
theorem idxOf_filter_le (p : α → Bool) (hp : p a = true) : (l.filter p).idxOf a ≤ l.idxOf a := by
  induction l with
  | nil => exact le_rfl
  | cons x l ih =>
    by_cases hx : x = a
    · rw [hx, List.filter_cons_of_pos hp, List.idxOf_cons_self]
      exact Nat.zero_le _
    · rw [List.idxOf_cons_ne _ hx]
      by_cases hpx : p x = true
      · rw [List.filter_cons_of_pos hpx, List.idxOf_cons_ne _ hx]
        exact Nat.succ_le_succ ih
      · rw [List.filter_cons_of_neg hpx]
        exact ih.trans (Nat.le_succ _)

theorem mem_batch (ha : a ∈ l) (hn : l.idxOf a < n) : a ∈ l.take n := by
  by_contra hnot
  have hin : a ∈ l.drop n := by
    rw [← List.take_append_drop n l] at ha
    exact (List.mem_append.1 ha).resolve_left hnot
  have hwhole : l.idxOf a = (l.take n).length + (l.drop n).idxOf a := by
    conv_lhs => rw [← List.take_append_drop n l]
    exact List.idxOf_append_of_notMem hnot
  have hlong : n < l.length := by
    by_contra hshort
    rw [List.drop_of_length_le (not_lt.1 hshort)] at hin
    cases hin
  rw [List.length_take_of_le hlong.le] at hwhole
  omega

end Batches
