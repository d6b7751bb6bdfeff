import Mathlib.Data.List.Basic
import Mathlib.Tactic

/-! Strings in memory that end with a terminator, and lines of bounded length of a
stream. A pointer is the memory from it on; what is read past the end is `none`. -/

namespace CString

variable {α : Type*}

/-- The memory behind the leading elements that `p` holds of. -/
def skip (p : α → Bool) : List α → Option (List α)
  | [] => none
  | c :: m => if p c then skip p m else some (c :: m)

theorem skip_str [Zero α] {p : α → Bool} (h0 : p 0 = false) (s rest : List α) :
    skip p (s ++ 0 :: rest) = some (s.dropWhile p ++ 0 :: rest) := by
  induction s with
  | nil => rw [List.nil_append, skip, h0]; rfl
  | cons x s ih =>
    rw [List.cons_append, skip, List.dropWhile_cons]
    cases p x with
    | true => exact ih
    | false => rfl

theorem take_cut {c : α} {m s : List α} {n : ℕ} (h : s.length < n) :
    (s ++ c :: m).take n = s ++ c :: m.take (n - s.length - 1) := by
  obtain ⟨k, rfl⟩ := Nat.exists_eq_add_of_lt h
  rw [List.take_append, List.take_of_length_le (by omega),
    show s.length + k + 1 - s.length = k + 1 by omega, List.take_succ_cons, Nat.add_sub_cancel]

variable [DecidableEq α]

/-- What stands before the first `c`, and what behind. -/
def cutAt (c : α) : List α → Option (List α × List α)
  | [] => none
  | x :: s => if x = c then some ([], s) else (cutAt c s).map fun split => (x :: split.1, split.2)

section

variable {c : α} {m s t : List α}

theorem cutAt_append (hc : c ∉ s) (t : List α) : cutAt c (s ++ c :: t) = some (s, t) := by
  induction s with
  | nil => exact if_pos rfl
  | cons x s ih =>
    rw [List.mem_cons, not_or] at hc
    rw [List.cons_append, cutAt, if_neg (Ne.symm hc.1), ih hc.2]
    rfl

theorem cutAt_eq_some (h : cutAt c m = some (s, t)) : m = s ++ c :: t ∧ c ∉ s := by
  induction m generalizing s with
  | nil => cases h
  | cons x m ih =>
    rw [cutAt] at h
    split_ifs at h with hx
    · cases h
      exact ⟨by rw [hx]; rfl, List.not_mem_nil⟩
    · obtain ⟨⟨s', t'⟩, hfound, hsplit⟩ := Option.map_eq_some_iff.1 h
      cases hsplit
      obtain ⟨rfl, hc⟩ := ih hfound
      exact ⟨rfl, by rw [List.mem_cons, not_or]; exact ⟨Ne.symm hx, hc⟩⟩

/-- The first `c` tells where the first part ends. -/
theorem cut_inj {r : List α} (hs : c ∉ s) (ht : c ∉ t) :
    s ++ c :: m = t ++ c :: r ↔ s = t ∧ m = r := by
  constructor
  · intro h
    have hcut := cutAt_append hs m
    rw [h, cutAt_append ht r] at hcut
    cases hcut
    exact ⟨rfl, rfl⟩
  · rintro ⟨rfl, rfl⟩
    rfl

theorem take_cut_eq_iff {n : ℕ} {r : List α} (hs : c ∉ s) (ht : c ∉ t) :
    (s ++ c :: m).take n = (t ++ c :: r).take n ↔
      (n ≤ s.length ∧ n ≤ t.length ∧ s.take n = t.take n) ∨
        (s.length < n ∧ s = t ∧ m.take (n - s.length - 1) = r.take (n - s.length - 1)) := by
  rcases Nat.lt_or_ge s.length n with hsn | hsn <;> rcases Nat.lt_or_ge t.length n with htn | htn
  · rw [take_cut hsn, take_cut htn, cut_inj hs ht]
    constructor
    · rintro ⟨rfl, h⟩
      exact .inr ⟨hsn, rfl, h⟩
    · rintro (⟨hle, -, -⟩ | ⟨-, rfl, h⟩)
      · omega
      · exact ⟨rfl, h⟩
  · rw [take_cut hsn, List.take_append_of_le_length htn]
    refine iff_of_false (fun h => ht (List.mem_of_mem_take (h ▸ ?_ : c ∈ t.take n))) ?_
    · simp
    · rintro (⟨hle, -, -⟩ | ⟨-, rfl, -⟩) <;> omega
  · rw [take_cut htn, List.take_append_of_le_length hsn]
    refine iff_of_false (fun h => hs (List.mem_of_mem_take (h ▸ ?_ : c ∈ s.take n))) ?_
    · simp
    · rintro (⟨-, hle, -⟩ | ⟨hlt, -, -⟩) <;> omega
  · rw [List.take_append_of_le_length hsn, List.take_append_of_le_length htn]
    constructor
    · exact fun h => .inl ⟨hsn, htn, h⟩
    · rintro (⟨-, -, h⟩ | ⟨hlt, -, -⟩)
      · exact h
      · omega

theorem cutAt_eq_none : cutAt c m = none ↔ c ∉ m := by
  induction m with
  | nil => simp [cutAt]
  | cons x m ih =>
    rw [cutAt, List.mem_cons, not_or, ← ih]
    by_cases hx : x = c
    · simp [hx]
    · simp [hx, Ne.symm hx]

end

section

variable [Zero α]

/-- The string that the memory begins with. -/
def str : List α → Option (List α)
  | [] => none
  | c :: m => if c = 0 then some [] else (str m).map (c :: ·)

/-- The first `c` before the terminator: what stands before it, and what behind. -/
def chr (c : α) : List α → Option (Option (List α × List α))
  | [] => none
  | x :: m =>
    if x = c then some (some ([], m))
    else if x = 0 then some none
    else (chr c m).map fun found => found.map fun split => (x :: split.1, split.2)

variable {c : α} {m s : List α}

theorem str_append (h : 0 ∉ s) (rest : List α) : str (s ++ 0 :: rest) = some s := by
  induction s with
  | nil => exact if_pos rfl
  | cons x s ih =>
    rw [List.mem_cons, not_or] at h
    obtain ⟨hx, hs⟩ := h
    rw [List.cons_append, str, if_neg (Ne.symm hx), ih hs]
    rfl

theorem str_of_mem (h : 0 ∈ m) : str m = some (m.takeWhile (· ≠ 0)) := by
  induction m with
  | nil => cases h
  | cons x m ih =>
    rw [str, List.takeWhile_cons]
    by_cases hx : x = 0
    · simp [hx]
    · rw [if_neg hx, ih ((List.mem_cons.1 h).resolve_left (Ne.symm hx))]
      simp [hx]

/-- The string that `chr` looks through ends with the memory's first terminator. -/
theorem chr_eq_cutAt (h : 0 ∉ s) (h0 : c ≠ 0) (rest : List α) : chr c (s ++ 0 :: rest) =
    some ((cutAt c s).map fun split => (split.1, split.2 ++ 0 :: rest)) := by
  induction s with
  | nil => rw [List.nil_append, chr, if_neg (Ne.symm h0), if_pos rfl]; rfl
  | cons x s ih =>
    rw [List.mem_cons, not_or] at h
    rw [List.cons_append, chr, cutAt, if_neg (Ne.symm h.1), ih h.2]
    by_cases hx : x = c
    · rw [if_pos hx, if_pos hx]
      rfl
    · rw [if_neg hx, if_neg hx, Option.map_some, Option.map_map, Option.map_map]
      rfl

/-- Whatever the memory holds, its string ends before the first terminator. -/
theorem exists_str (text rest : List α) :
    ∃ rest', text ++ 0 :: rest = text.takeWhile (· ≠ 0) ++ 0 :: rest' := by
  induction text with
  | nil => exact ⟨rest, rfl⟩
  | cons x text ih =>
    by_cases hx : x = 0
    · exact ⟨text ++ 0 :: rest, by simp [hx]⟩
    · obtain ⟨rest', hrest⟩ := ih
      exact ⟨rest', by rw [List.cons_append, hrest, List.takeWhile_cons]; simp [hx]⟩

end

/-- A line of at most `n` elements, with its end if it is reached, and what follows it. -/
def line (nl : α) : ℕ → List α → List α × List α
  | 0, s => ([], s)
  | _ + 1, [] => ([], [])
  | n + 1, c :: s => if c = nl then ([c], s) else (c :: (line nl n s).1, (line nl n s).2)

variable {nl : α} {n : ℕ} {s : List α}

theorem line_append : ∀ (n : ℕ) (s : List α), (line nl n s).1 ++ (line nl n s).2 = s
  | 0, _ => rfl
  | _ + 1, [] => rfl
  | n + 1, c :: s => by
    rw [line]
    split_ifs
    · rfl
    · rw [List.cons_append, line_append n s]

theorem length_line_le : ∀ (n : ℕ) (s : List α), (line nl n s).1.length ≤ n
  | 0, _ => le_rfl
  | _ + 1, [] => Nat.zero_le _
  | n + 1, c :: s => by
    rw [line]
    split_ifs
    · exact Nat.succ_le_succ (Nat.zero_le n)
    · exact Nat.succ_le_succ (length_line_le n s)

/-- Without the end of a line the length is all that ends one. -/
theorem line_eq_take (h : nl ∉ s) (n : ℕ) : line nl n s = (s.take n, s.drop n) := by
  induction s generalizing n with
  | nil => cases n <;> rfl
  | cons c s ih =>
    rw [List.mem_cons, not_or] at h
    obtain ⟨hc, hs⟩ := h
    cases n with
    | zero => rfl
    | succ n => rw [line, if_neg (Ne.symm hc), ih hs]; rfl

/-- A line that is short enough is taken with its end. -/
theorem line_whole (h : nl ∉ s) (hn : s.length < n) (t : List α) :
    line nl n (s ++ nl :: t) = (s ++ [nl], t) := by
  induction s generalizing n with
  | nil =>
    obtain ⟨n, rfl⟩ := Nat.exists_eq_succ_of_ne_zero hn.ne'
    exact if_pos rfl
  | cons c s ih =>
    rw [List.mem_cons, not_or] at h
    obtain ⟨n, rfl⟩ := Nat.exists_eq_succ_of_ne_zero (Nat.zero_lt_of_lt hn).ne'
    rw [List.cons_append, line, if_neg (Ne.symm h.1), ih h.2 (Nat.lt_of_succ_lt_succ hn)]
    rfl

theorem line_full (h : nl ∉ s) (t : List α) : line nl s.length (s ++ t) = (s, t) := by
  induction s with
  | nil => rfl
  | cons c s ih =>
    rw [List.mem_cons, not_or] at h
    rw [List.length_cons, List.cons_append, line, if_neg (Ne.symm h.1), ih h.2]

/-- The lines that a stream is cut into, `rounds` of them at most. -/
def lines (nl : α) (n : ℕ) : ℕ → List α → List (List α)
  | 0, _ => []
  | rounds + 1, s => if s = [] then [] else (line nl n s).1 :: lines nl n rounds (line nl n s).2

theorem line_ne_nil (hs : s ≠ []) : (line nl (n + 1) s).1 ≠ [] := by
  cases s with
  | nil => exact absurd rfl hs
  | cons c s =>
    rw [line]
    split_ifs <;> simp

theorem length_behind_line (hs : s ≠ []) : (line nl (n + 1) s).2.length < s.length := by
  have happend : (line nl (n + 1) s).1 ++ (line nl (n + 1) s).2 = s := line_append (n + 1) s
  have hne : (line nl (n + 1) s).1 ≠ [] := line_ne_nil hs
  have hlen := congrArg List.length happend
  have hpos := List.length_pos_of_ne_nil hne
  rw [List.length_append] at hlen
  omega

/-- A round for every element is enough, and more of them change nothing. -/
theorem lines_rounds {a b : ℕ} (ha : s.length ≤ a) (hb : s.length ≤ b) :
    lines nl (n + 1) a s = lines nl (n + 1) b s := by
  induction a generalizing b s with
  | zero =>
    rw [List.length_eq_zero_iff.1 (Nat.le_zero.1 ha)]
    cases b <;> rfl
  | succ a ih =>
    by_cases hs : s = []
    · subst hs
      cases b <;> rfl
    · have hpos := List.length_pos_of_ne_nil hs
      have hlt : (line nl (n + 1) s).2.length < s.length := length_behind_line hs
      obtain ⟨b, rfl⟩ := Nat.exists_eq_succ_of_ne_zero (hpos.trans_le hb).ne'
      rw [lines, lines, if_neg hs, if_neg hs, ih (s := (line nl (n + 1) s).2) (b := b) (by omega)
        (by omega)]

end CString
