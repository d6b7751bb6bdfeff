import Mathlib.Data.List.Basic

/-! Windows `[i, j)` of a list, overwriting a stretch of a list in place, and copying one
stretch of a list over another.
Nothing here depends on what the list holds. -/

namespace Window

variable {α : Type*}

def window (v : List α) (i j : ℕ) : List α := (v.drop i).take (j - i)

def overwrite (v : List α) (off : ℕ) (d : List α) : List α :=
  v.take off ++ d ++ v.drop (off + d.length)

theorem length_window {v : List α} {i j : ℕ} (hj : j ≤ v.length) :
    (window v i j).length = j - i := by
  rw [window, List.length_take, List.length_drop]
  omega

@[simp] theorem window_self (v : List α) (i : ℕ) : window v i i = [] := by
  simp [window]

theorem window_append {v : List α} {i j k : ℕ} (hij : i ≤ j) (hjk : j ≤ k) :
    window v i j ++ window v j k = window v i k := by
  obtain ⟨a, rfl⟩ := Nat.exists_eq_add_of_le hij
  obtain ⟨b, rfl⟩ := Nat.exists_eq_add_of_le hjk
  have hb : i + a + b - (i + a) = b := by omega
  have hab : i + a + b - i = a + b := by omega
  rw [window, window, window, hb, hab, Nat.add_sub_cancel_left, List.take_add, List.drop_drop]

theorem window_take {v : List α} {i j n : ℕ} (h : i + n ≤ j) :
    (window v i j).take n = window v i (i + n) := by
  rw [window, window, List.take_take]
  congr 1
  omega

theorem window_drop {v : List α} {i j n : ℕ} : (window v i j).drop n = window v (i + n) j := by
  rw [window, window, List.drop_take, List.drop_drop]
  congr 1
  omega

theorem length_overwrite {v d : List α} {off : ℕ} (h : off + d.length ≤ v.length) :
    (overwrite v off d).length = v.length := by
  simp only [overwrite, List.length_append, List.length_take, List.length_drop]
  omega

theorem window_overwrite {v d : List α} {off : ℕ} (h : off ≤ v.length) :
    window (overwrite v off d) off (off + d.length) = d := by
  have hlen : (v.take off).length = off := by rw [List.length_take]; omega
  rw [window, overwrite, List.append_assoc, List.drop_append_of_le_length (by omega),
    List.drop_of_length_le (by omega), Nat.add_sub_cancel_left, List.nil_append, List.take_left']
  rfl

theorem window_overwrite_before {v d : List α} {off i j : ℕ} (hj : j ≤ off) (h : off ≤ v.length) :
    window (overwrite v off d) i j = window v i j := by
  have hlen : (v.take off).length = off := by rw [List.length_take]; omega
  rw [window, window, ← List.drop_take, ← List.drop_take, overwrite, List.append_assoc,
    List.take_append_of_le_length (by omega), List.take_take, Nat.min_eq_left hj]

theorem window_overwrite_behind {v d : List α} {off i j : ℕ} (h : off ≤ v.length)
    (hi : off + d.length ≤ i) : window (overwrite v off d) i j = window v i j := by
  have hlen : (v.take off ++ d).length = off + d.length := by
    rw [List.length_append, List.length_take]
    omega
  obtain ⟨n, rfl⟩ := Nat.exists_eq_add_of_le hi
  rw [window, window, overwrite, ← hlen, List.drop_append, List.drop_of_length_le (by omega)]
  simp [List.drop_drop]

def copyElement (v : List α) (i j : ℕ) : List α :=
  match v[i]? with
  | some x => v.set j x
  | none => v

/-- The elements from `src` on copied to `dst` one by one in ascending order, after `n`
rounds. -/
def copyForward (v : List α) (src dst : ℕ) : ℕ → List α
  | 0 => v
  | n + 1 => copyElement (copyForward v src dst n) (src + n) (dst + n)

theorem getElem?_overwrite_behind {v d : List α} {off i : ℕ} (h : off ≤ v.length)
    (hi : off + d.length ≤ i) : (overwrite v off d)[i]? = v[i]? := by
  have hlen : (v.take off ++ d).length = off + d.length := by
    rw [List.length_append, List.length_take]
    omega
  rw [overwrite, List.getElem?_append_right (by omega), hlen, List.getElem?_drop]
  congr 1
  omega

/-- The element behind the overwritten stretch lengthens it by one. -/
theorem set_overwrite {v d : List α} {off : ℕ} (h : off + d.length < v.length) (x : α) :
    (overwrite v off d).set (off + d.length) x = overwrite v off (d ++ [x]) := by
  have hlen : (v.take off ++ d).length = off + d.length := by
    rw [List.length_append, List.length_take]
    omega
  rw [overwrite, overwrite, List.set_append_right _ _ (by omega), hlen, Nat.sub_self,
    List.drop_eq_getElem_cons h, List.set_cons_zero, List.length_append, List.length_singleton]
  simp only [List.append_assoc, List.singleton_append, Nat.add_assoc]

theorem window_succ {v : List α} {i j : ℕ} {x : α} (hij : i ≤ j) (hx : v[j]? = some x) :
    window v i (j + 1) = window v i j ++ [x] := by
  obtain ⟨n, rfl⟩ := Nat.exists_eq_add_of_le hij
  rw [window, window, show i + n + 1 - i = n + 1 by omega, Nat.add_sub_cancel_left,
    List.take_add_one, List.getElem?_drop, hx]
  rfl

/-- A copy towards the front never reads what it has written: the whole stretch arrives,
however much it overlaps. -/
theorem copyForward_eq {v : List α} {src dst n : ℕ} (hle : dst ≤ src) (hn : src + n ≤ v.length) :
    copyForward v src dst n = overwrite v dst (window v src (src + n)) := by
  induction n with
  | zero => simp [copyForward, overwrite]
  | succ n ih =>
    obtain ⟨x, hx⟩ : ∃ x, v[src + n]? = some x := ⟨_, List.getElem?_eq_getElem (by omega)⟩
    have hlen : (window v src (src + n)).length = n := by
      rw [length_window (by omega)]
      omega
    -- the element read lies behind those written so far
    have hread : (overwrite v dst (window v src (src + n)))[src + n]? = some x := by
      rw [getElem?_overwrite_behind (by omega) (by omega), hx]
    have hset := set_overwrite (show dst + (window v src (src + n)).length < v.length by omega) x
    rw [hlen] at hset
    rw [copyForward, ih (by omega), copyElement, hread]
    simp only
    rw [hset, ← Nat.add_assoc, window_succ (Nat.le_add_right _ _) hx]

/-- The element that a round reads is as it was before the copy. -/
theorem getElem?_copyForward {v : List α} {src dst n : ℕ} (hle : dst ≤ src)
    (hn : src + n ≤ v.length) : (copyForward v src dst n)[src + n]? = v[src + n]? := by
  rw [copyForward_eq hle hn]
  refine getElem?_overwrite_behind (by omega) ?_
  rw [length_window hn]
  omega

/-- Writing `d` over the front of `old ++ stale` instead of behind `old` goes
unnoticed exactly when `d` only repeats what lies there already: it continues
`old` with itself, and its last elements were in place before the write. -/
theorem misplaced_eq_append_iff (old d stale : List α) :
    d ++ (old ++ stale).drop d.length = old ++ d ↔
      d <+: old ++ d ∧
        stale.drop (d.length - old.length) = d.drop (d.length - old.length) := by
  rw [List.drop_append]
  constructor
  · intro h
    have hpre : d <+: old ++ d := ⟨_, h⟩
    refine ⟨hpre, ?_⟩
    have hd := List.prefix_iff_eq_append.1 hpre
    rw [List.drop_append, ← h] at hd
    simpa using hd.symm
  · rintro ⟨hpre, hstale⟩
    have hd := List.prefix_iff_eq_append.1 hpre
    rw [List.drop_append, ← hstale] at hd
    exact hd

end Window
