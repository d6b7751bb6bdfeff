import Czy.Lib.Numeral
import Mathlib.Data.List.Lex

/-! Texts in columns of fixed width: where the columns are as wide, the lexicographic order
goes by the first column that differs, and that of numerals is the order of the numbers. -/

namespace Columns

variable {α β : Type*}

section

variable [LT α] [LT β]

/-- Of two columns of one width, what is behind them only counts where they are the same. -/
theorem append_lt_append_iff {s s' : List α} (h : s.length = s'.length) (t t' : List α) :
    s ++ t < s' ++ t' ↔ s < s' ∨ s = s' ∧ t < t' := by
  induction s generalizing s' with
  | nil =>
    obtain rfl := List.length_eq_zero_iff.1 h.symm
    simp
  | cons a s ih =>
    cases s' with
    | nil => cases h
    | cons a' s' =>
      rw [List.cons_append, List.cons_append, List.cons_lt_cons_iff, List.cons_lt_cons_iff,
        ih (Nat.succ.inj h), List.cons.injEq]
      tauto

theorem cons_lt_cons_same [Std.Asymm fun x y : α => x < y] (a : α) (s t : List α) :
    a :: s < a :: t ↔ s < t := by
  rw [List.cons_lt_cons_iff, or_iff_right fun h => Std.Asymm.asymm a a h h, and_iff_right rfl]

/-- A map that keeps the order of the elements keeps the order of the lists. -/
theorem map_lt_map_iff {f : α → β} {s t : List α}
    (hlt : ∀ a ∈ s, ∀ b ∈ t, f a < f b ↔ a < b) (hinj : ∀ a ∈ s, ∀ b ∈ t, f a = f b ↔ a = b) :
    s.map f < t.map f ↔ s < t := by
  induction s generalizing t with
  | nil => cases t <;> simp
  | cons a s ih =>
    cases t with
    | nil => simp
    | cons b t =>
      rw [List.map_cons, List.map_cons, List.cons_lt_cons_iff, List.cons_lt_cons_iff,
        hlt a List.mem_cons_self b List.mem_cons_self, hinj a List.mem_cons_self b List.mem_cons_self,
        ih (fun x hx y hy => hlt x (List.mem_cons_of_mem _ hx) y (List.mem_cons_of_mem _ hy))
          fun x hx y hy => hinj x (List.mem_cons_of_mem _ hx) y (List.mem_cons_of_mem _ hy)]

end

def split : List (ℕ × ℕ) → List α → List (List α)
  | [], _ => []
  | (skip, width) :: columns, text =>
    (text.drop skip).take width :: split columns ((text.drop skip).drop width)

section

variable {columns : List (ℕ × ℕ)} {field rest : List α} {width : ℕ}

theorem split_column (h : field.length = width) :
    split ((0, width) :: columns) (field ++ rest) = field :: split columns rest := by
  rw [split, List.drop_zero, List.take_left' h, List.drop_left' h]

theorem split_separated (h : field.length = width) (a : α) :
    split ((1, width) :: columns) (a :: (field ++ rest)) = field :: split columns rest := by
  rw [split, List.drop_one, List.tail_cons, List.take_left' h, List.drop_left' h]

theorem split_last (h : field.length = width) (a : α) :
    split ((1, width) :: columns) (a :: field) = field :: split columns [] := by
  rw [← List.append_nil field, split_separated h, List.append_nil]

end

open Numeral

variable {b : ℕ}

theorem read_cons (b d : ℕ) (ds : List ℕ) : read b (d :: ds) = d * b ^ ds.length + read b ds := by
  have h := read_append b [d] ds
  rwa [List.singleton_append, show read b [d] = d by simp [Numeral.read]] at h

theorem read_lt {ds : List ℕ} (h : ∀ d ∈ ds, d < b) : read b ds < b ^ ds.length := by
  induction ds with
  | nil => simp [Numeral.read]
  | cons d ds ih =>
    have hd := h d List.mem_cons_self
    have hds := ih fun e he => h e (List.mem_cons_of_mem _ he)
    rw [read_cons, List.length_cons, pow_succ]
    calc d * b ^ ds.length + read b ds < d * b ^ ds.length + b ^ ds.length := by omega
      _ = (d + 1) * b ^ ds.length := by ring
      _ ≤ b * b ^ ds.length := Nat.mul_le_mul_right _ hd
      _ = b ^ ds.length * b := mul_comm _ _

/-- Numerals of one width are in the order of their numbers. -/
theorem digits_lt_iff {ds es : List ℕ} (h : ds.length = es.length) (hds : ∀ d ∈ ds, d < b)
    (hes : ∀ e ∈ es, e < b) : ds < es ↔ read b ds < read b es := by
  induction ds generalizing es with
  | nil =>
    obtain rfl := List.length_eq_zero_iff.1 h.symm
    simp
  | cons d ds ih =>
    cases es with
    | nil => cases h
    | cons e es =>
      have hlen : ds.length = es.length := Nat.succ.inj h
      have hds' : ∀ x ∈ ds, x < b := fun x hx => hds x (List.mem_cons_of_mem _ hx)
      have hes' : ∀ x ∈ es, x < b := fun x hx => hes x (List.mem_cons_of_mem _ hx)
      have hlow := read_lt hds'
      have hlow' := read_lt hes'
      rw [List.cons_lt_cons_iff, ih hlen hds' hes', read_cons, read_cons, hlen]
      rw [hlen] at hlow
      generalize b ^ es.length = w at hlow hlow' ⊢
      rcases lt_trichotomy d e with hlt | rfl | hgt
      · have hstep : (d + 1) * w ≤ e * w := Nat.mul_le_mul_right _ hlt
        rw [add_mul, one_mul] at hstep
        exact iff_of_true (.inl hlt) (by omega)
      · simp
      · have hstep : (e + 1) * w ≤ d * w := Nat.mul_le_mul_right _ hgt
        rw [add_mul, one_mul] at hstep
        exact iff_of_false (by omega) (by omega)

theorem length_padded_of_lt (hb : 1 < b) {w n : ℕ} (hw : 0 < w) (hn : n < b ^ w) :
    (padded b w n).length = w :=
  length_padded (numeral_length_le hb hw hn)

theorem padded_lt_padded_iff (hb : 1 < b) {w m n : ℕ} (hw : 0 < w) (hm : m < b ^ w) (hn : n < b ^ w) :
    padded b w m < padded b w n ↔ m < n := by
  rw [digits_lt_iff (b := b) ((length_padded_of_lt hb hw hm).trans (length_padded_of_lt hb hw hn).symm)
    (fun d hd => padded_lt hb hd) fun d hd => padded_lt hb hd, read_padded hb, read_padded hb]

theorem lt_of_length_lt (hb : 1 < b) {m n : ℕ} (h : (numeral b m).length < (numeral b n).length) :
    m < n := by
  have hpos : 0 < (numeral b m).length :=
    List.length_pos_of_ne_nil (numeral_isNumeral hb m).nonempty
  by_contra hnm
  have hle := (lt_length_numeral_iff hb hpos).1 h
  exact absurd ((lt_length_numeral_iff hb hpos).2 (hle.trans (not_lt.1 hnm))) (lt_irrefl _)

/-- Filled up in front with something below every digit, the numerals are still in the order
of their numbers. -/
theorem filled_lt_filled_iff [LT α] [Std.Asymm fun x y : α => x < y] (hb : 1 < b) {f : ℕ → α}
    {fill : α} (hmono : ∀ d < b, ∀ e < b, f d < f e ↔ d < e)
    (hinj : ∀ d < b, ∀ e < b, f d = f e ↔ d = e) (hfill : ∀ d < b, fill < f d) {w m n : ℕ}
    (hm : (numeral b m).length ≤ w) (hn : (numeral b n).length ≤ w) :
    List.replicate (w - (numeral b m).length) fill ++ (numeral b m).map f <
      List.replicate (w - (numeral b n).length) fill ++ (numeral b n).map f ↔ m < n := by
  have hdigits := fun k => (numeral_isNumeral hb k).digits
  -- where one numeral is longer, its first digit meets a blank of the other
  have hlong : ∀ {k l : ℕ}, (numeral b l).length ≤ w → (numeral b k).length < (numeral b l).length →
      List.replicate (w - (numeral b k).length) fill ++ (numeral b k).map f <
        List.replicate (w - (numeral b l).length) fill ++ (numeral b l).map f := by
    intro k l hl hlt
    obtain ⟨d, ds, hcons⟩ := List.exists_cons_of_ne_nil (numeral_isNumeral hb l).nonempty
    obtain ⟨j, hj⟩ : ∃ j, w - (numeral b k).length = (w - (numeral b l).length) + (j + 1) :=
      ⟨(numeral b l).length - (numeral b k).length - 1, by omega⟩
    have hd : d < b := hdigits l d (hcons ▸ List.mem_cons_self)
    rw [hj, List.replicate_add, List.append_assoc, append_lt_append_iff rfl, hcons]
    refine .inr ⟨rfl, ?_⟩
    rw [List.replicate_succ, List.cons_append, List.map_cons, List.cons_lt_cons_iff]
    exact .inl (hfill d hd)
  rcases lt_trichotomy (numeral b m).length (numeral b n).length with hlt | heq | hgt
  · exact iff_of_true (hlong hn hlt) (lt_of_length_lt hb hlt)
  · rw [heq, append_lt_append_iff rfl, or_iff_right fun h => List.lt_asymm h h, and_iff_right rfl,
      map_lt_map_iff (fun d hd e he => hmono d (hdigits m d hd) e (hdigits n e he))
        fun d hd e he => hinj d (hdigits m d hd) e (hdigits n e he),
      digits_lt_iff heq (hdigits m) (hdigits n), (numeral_isNumeral hb m).value,
      (numeral_isNumeral hb n).value]
  · exact iff_of_false (List.lt_asymm (hlong hm hgt)) (lt_asymm (lt_of_length_lt hb hgt))

end Columns
