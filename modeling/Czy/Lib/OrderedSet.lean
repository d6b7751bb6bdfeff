import Mathlib.Data.List.Perm.Basic
import Mathlib.Data.List.Nodup
import Mathlib.Order.Defs.LinearOrder
import Mathlib.Tactic

/-! Finite sets kept in ascending order, with what an ordered container offers:
insertion, removal, the first element and the parts below and from a key on. -/

/-- A set as the list of its elements in ascending order. -/
structure OrderedSet (α : Type*) [LinearOrder α] where
  elems : List α
  sorted : elems.Pairwise (· < ·)

namespace OrderedSet

variable {α β : Type*} [LinearOrder α] [LinearOrder β]

instance : Membership α (OrderedSet α) := ⟨fun s a => a ∈ s.elems⟩

instance (a : α) (s : OrderedSet α) : Decidable (a ∈ s) := inferInstanceAs (Decidable (a ∈ s.elems))

theorem mem_def {a : α} {s : OrderedSet α} : a ∈ s ↔ a ∈ s.elems := Iff.rfl

def empty : OrderedSet α := ⟨[], .nil⟩

def size (s : OrderedSet α) : ℕ := s.elems.length

def first (s : OrderedSet α) : Option α := s.elems.head?

def insertSorted (a : α) : List α → List α
  | [] => [a]
  | b :: l => if a < b then a :: b :: l else if a = b then b :: l else b :: insertSorted a l

theorem mem_insertSorted {a b : α} {l : List α} : b ∈ insertSorted a l ↔ b = a ∨ b ∈ l := by
  induction l with
  | nil => simp [insertSorted]
  | cons c l ih =>
    unfold insertSorted
    split_ifs with hlt heq
    · rw [List.mem_cons]
    · subst heq
      simp
    · rw [List.mem_cons, ih, List.mem_cons]
      tauto

theorem insertSorted_sorted (a : α) {l : List α} (h : l.Pairwise (· < ·)) :
    (insertSorted a l).Pairwise (· < ·) := by
  induction l with
  | nil => exact List.pairwise_singleton _ _
  | cons c l ih =>
    obtain ⟨hc, hl⟩ := List.pairwise_cons.1 h
    unfold insertSorted
    split_ifs with hlt heq
    · refine List.pairwise_cons.2 ⟨fun b hb => ?_, h⟩
      rcases List.mem_cons.1 hb with rfl | hb
      · exact hlt
      · exact hlt.trans (hc b hb)
    · exact h
    · refine List.pairwise_cons.2 ⟨fun b hb => ?_, ih hl⟩
      rcases mem_insertSorted.1 hb with rfl | hb
      · exact lt_of_le_of_ne (not_lt.1 hlt) (Ne.symm heq)
      · exact hc b hb

def insert (a : α) (s : OrderedSet α) : OrderedSet α :=
  ⟨insertSorted a s.elems, insertSorted_sorted a s.sorted⟩

def erase (a : α) (s : OrderedSet α) : OrderedSet α :=
  ⟨s.elems.erase a, s.sorted.sublist List.erase_sublist⟩

/-- The elements before the lower bound of `k`. -/
def below (k : α) (s : OrderedSet α) : List α := s.elems.takeWhile (· < k)

/-- The elements from the lower bound of `k` on. -/
def atLeast (k : α) (s : OrderedSet α) : OrderedSet α :=
  ⟨s.elems.dropWhile (· < k), s.sorted.sublist (List.dropWhile_sublist _)⟩

variable {a b k : α} {s : OrderedSet α}

theorem nodup (s : OrderedSet α) : s.elems.Nodup := s.sorted.imp fun h => ne_of_lt h

@[simp] theorem not_mem_empty : a ∉ (empty : OrderedSet α) := List.not_mem_nil

@[simp] theorem mem_insert : b ∈ s.insert a ↔ b = a ∨ b ∈ s := mem_insertSorted

@[simp] theorem mem_erase : b ∈ s.erase a ↔ b ≠ a ∧ b ∈ s := s.nodup.mem_erase_iff

theorem first_mem (h : s.first = some a) : a ∈ s := List.mem_of_mem_head? h

theorem first_le (h : s.first = some a) (hb : b ∈ s) : a ≤ b := by
  obtain ⟨l, hs⟩ := s
  cases l with
  | nil => cases h
  | cons c l =>
    obtain rfl : c = a := Option.some.inj h
    rcases List.mem_cons.1 hb with rfl | hb
    · exact le_rfl
    · exact ((List.pairwise_cons.1 hs).1 b hb).le

theorem first_eq_none : s.first = none ↔ ∀ a, a ∉ s := by
  obtain ⟨l, hs⟩ := s
  cases l with
  | nil => exact iff_of_true rfl fun a => List.not_mem_nil
  | cons c l => exact iff_of_false nofun fun h => h c List.mem_cons_self

theorem mem_takeWhile_of_sorted {l : List α} (h : l.Pairwise (· < ·)) :
    (a ∈ l.takeWhile (· < k) ↔ a ∈ l ∧ a < k) ∧ (a ∈ l.dropWhile (· < k) ↔ a ∈ l ∧ k ≤ a) := by
  induction l with
  | nil => simp
  | cons c l ih =>
    obtain ⟨hc, hl⟩ := List.pairwise_cons.1 h
    by_cases hk : c < k
    · rw [List.takeWhile_cons_of_pos (by simpa using hk), List.dropWhile_cons_of_pos (by simpa using hk),
        List.mem_cons, List.mem_cons, (ih hl).1, (ih hl).2]
      refine ⟨⟨?_, ?_⟩, ?_, ?_⟩
      · rintro (rfl | ⟨ha, hlt⟩)
        · exact ⟨.inl rfl, hk⟩
        · exact ⟨.inr ha, hlt⟩
      · rintro ⟨rfl | ha, hlt⟩
        · exact .inl rfl
        · exact .inr ⟨ha, hlt⟩
      · exact fun ⟨ha, hle⟩ => ⟨.inr ha, hle⟩
      · rintro ⟨rfl | ha, hle⟩
        · exact absurd hk (not_lt.2 hle)
        · exact ⟨ha, hle⟩
    · rw [List.takeWhile_cons_of_neg (by simpa using hk), List.dropWhile_cons_of_neg (by simpa using hk)]
      have hge : ∀ b ∈ c :: l, k ≤ b := by
        intro b hb
        rcases List.mem_cons.1 hb with rfl | hb
        · exact not_lt.1 hk
        · exact (not_lt.1 hk).trans (hc b hb).le
      constructor
      · exact iff_of_false List.not_mem_nil fun ⟨ha, hlt⟩ => not_lt.2 (hge a ha) hlt
      · exact ⟨fun ha => ⟨ha, hge a ha⟩, fun h => h.1⟩

theorem mem_below : a ∈ s.below k ↔ a ∈ s ∧ a < k := (mem_takeWhile_of_sorted s.sorted).1

@[simp] theorem mem_atLeast : a ∈ s.atLeast k ↔ a ∈ s ∧ k ≤ a := (mem_takeWhile_of_sorted s.sorted).2

theorem below_sorted (k : α) (s : OrderedSet α) : (s.below k).Pairwise (· < ·) :=
  s.sorted.sublist (List.takeWhile_sublist _)

theorem below_nodup (k : α) (s : OrderedSet α) : (s.below k).Nodup :=
  s.nodup.sublist (List.takeWhile_sublist _)

/-- Sets whose elements correspond have the same size. -/
theorem size_eq_of_correspond {t : OrderedSet β} (f : α → β)
    (hinj : ∀ a ∈ s, ∀ b ∈ s, f a = f b → a = b) (hmem : ∀ b, b ∈ t ↔ ∃ a ∈ s, f a = b) :
    s.size = t.size := by
  have hnodup : (s.elems.map f).Nodup := List.Nodup.map_on (fun a ha b hb h => hinj a ha b hb h) s.nodup
  have hperm : (s.elems.map f).Perm t.elems := by
    refine (List.perm_ext_iff_of_nodup hnodup t.nodup).2 fun b => ?_
    rw [List.mem_map]
    exact (hmem b).symm
  rw [size, size, ← hperm.length_eq, List.length_map]

end OrderedSet
