import Mathlib.Data.List.Basic
import Mathlib.Data.List.Infix

/-! Where a pattern first occurs in a list, and where an element first and last does. -/

namespace Search

variable {α : Type*} [DecidableEq α]

def search (pat : List α) : List α → ℕ
  | [] => 0
  | x :: s => if pat <+: x :: s then 0 else search pat s + 1

variable {pat s : List α} {j : ℕ}

theorem search_le : search pat s ≤ s.length := by
  induction s with
  | nil => exact le_rfl
  | cons x s ih =>
    rw [search, List.length_cons]
    split_ifs <;> omega

theorem not_prefix_before (h : j < search pat s) : ¬ pat <+: s.drop j := by
  induction s generalizing j with
  | nil => exact absurd h (Nat.not_lt_zero j)
  | cons x s ih =>
    rw [search] at h
    split_ifs at h with hx
    · exact absurd h (Nat.not_lt_zero j)
    · cases j with
      | zero => exact hx
      | succ j => exact ih (Nat.lt_of_succ_lt_succ h)

theorem prefix_at_search (h : search pat s < s.length) : pat <+: s.drop (search pat s) := by
  induction s with
  | nil => exact absurd h (Nat.not_lt_zero _)
  | cons x s ih =>
    rw [search] at h ⊢
    split_ifs at h ⊢ with hx
    · exact hx
    · exact ih (Nat.lt_of_succ_lt_succ h)

theorem not_prefix_of_search_end (hpat : pat ≠ []) (h : search pat s = s.length) (j : ℕ) :
    ¬ pat <+: s.drop j := by
  rcases Nat.lt_or_ge j s.length with hj | hj
  · exact not_prefix_before (h.symm ▸ hj)
  · rw [List.drop_of_length_le hj, List.prefix_nil]
    exact hpat

def find (c : α) (s : List α) : Option ℕ := s.idxOf? c

def rfind (c : α) (s : List α) : Option ℕ := (find c s.reverse).map (s.length - 1 - ·)

variable {c : α} {p t : List α} {i : ℕ}

theorem find_append (h : c ∉ p) : find c (p ++ c :: t) = some p.length := by
  rw [find, List.idxOf?_eq_some_iff]
  refine ⟨by simp, by simp, fun j hj => ?_⟩
  rw [List.getElem_append_left hj]
  exact fun heq => h (heq ▸ List.getElem_mem hj)

theorem rfind_append (h : c ∉ t) : rfind c (p ++ c :: t) = some p.length := by
  have hrev : (p ++ c :: t).reverse = t.reverse ++ c :: p.reverse := by simp
  rw [rfind, hrev, find_append (by rwa [List.mem_reverse]), Option.map_some, List.length_append,
    List.length_cons, List.length_reverse]
  congr 1
  omega

theorem getElem?_of_find (h : find c s = some i) : s[i]? = some c := by
  obtain ⟨hi, hat, -⟩ := List.idxOf?_eq_some_iff.1 h
  rw [List.getElem?_eq_getElem hi, hat]

theorem getElem?_of_rfind (h : rfind c s = some i) : s[i]? = some c := by
  obtain ⟨k, hk, rfl⟩ := Option.map_eq_some_iff.1 h
  have hat := getElem?_of_find hk
  have hlt : k < s.length := by
    rw [← List.length_reverse]
    exact (List.getElem?_eq_some_iff.1 hat).1
  rwa [List.getElem?_reverse hlt] at hat

theorem rfind_lt (h : rfind c s = some i) : i < s.length :=
  (List.getElem?_eq_some_iff.1 (getElem?_of_rfind h)).1

end Search
