import Mathlib.Order.Defs.LinearOrder
import Mathlib.Tactic

/-! A value that changes at the keys of an ascending table: the value in force at a key,
and the binary search of `lower_bound`, which finds it. -/

namespace Timeline

section

variable {α : Type*}

/-- The binary search in `l`, with the number of steps it may take. -/
def search (less : α → Bool) : ℕ → List α → ℕ
  | 0, _ => 0
  | n + 1, l => match l.drop (l.length / 2) with
    | [] => 0
    | a :: r =>
      if less a then l.length / 2 + 1 + search less n r else search less n (l.take (l.length / 2))

/-- `lower_bound`: the first position whose element is not less, where the elements that are
less come first. -/
def lowerBound (less : α → Bool) (l : List α) : ℕ := search less l.length l

/-- The position is between an element that is less and one that is not. -/
structure Brackets (less : α → Bool) (l : List α) (i : ℕ) : Prop where
  le : i ≤ l.length
  before : ∀ j a, j + 1 = i → l[j]? = some a → less a = true
  here : ∀ a, l[i]? = some a → less a = false

variable {less : α → Bool} {l : List α}

theorem search_brackets : ∀ (n : ℕ) (l : List α), l.length ≤ n → Brackets less l (search less n l) := by
  intro n
  induction n with
  | zero =>
    intro l hl
    obtain rfl := List.length_eq_zero_iff.1 (Nat.le_zero.1 hl)
    exact ⟨le_rfl, nofun, nofun⟩
  | succ n ih =>
    intro l hl
    unfold search
    split
    next hdrop =>
      have hlen := List.drop_eq_nil_iff.1 hdrop
      obtain rfl : l = [] := List.length_eq_zero_iff.1 (by omega)
      exact ⟨le_rfl, nofun, nofun⟩
    next a r hdrop =>
      have hdlen := congrArg List.length hdrop
      rw [List.length_drop, List.length_cons] at hdlen
      have hat : ∀ j, l[l.length / 2 + j]? = (a :: r)[j]? := fun j => by
        rw [← hdrop, List.getElem?_drop]
      split
      next hless =>
        obtain ⟨hle, hbefore, hhere⟩ := ih r (by omega)
        refine ⟨by omega, fun j b hj hb => ?_, fun b hb => ?_⟩
        · obtain ⟨k, rfl⟩ : ∃ k, j = l.length / 2 + k := ⟨j - l.length / 2, by omega⟩
          rw [hat] at hb
          cases k with
          | zero => cases hb; exact hless
          | succ k => exact hbefore k b (by omega) hb
        · rw [Nat.add_assoc, Nat.add_comm 1, hat] at hb
          exact hhere b hb
      next hless =>
        have htake : (l.take (l.length / 2)).length = l.length / 2 := by
          rw [List.length_take]
          omega
        obtain ⟨hle, hbefore, hhere⟩ := ih (l.take (l.length / 2)) (by omega)
        rw [htake] at hle
        refine ⟨by omega, fun j b hj hb => ?_, fun b hb => ?_⟩
        · exact hbefore j b hj (by rw [List.getElem?_take_of_lt (by omega), hb])
        · rcases hle.lt_or_eq with hlt | heq
          · exact hhere b (by rw [List.getElem?_take_of_lt hlt, hb])
          · rw [heq] at hb
            have hmid : (a :: r)[0]? = some b := by rw [← hat, Nat.add_zero, hb]
            cases hmid
            exact Bool.eq_false_of_not_eq_true hless

theorem lowerBound_brackets (less : α → Bool) (l : List α) : Brackets less l (lowerBound less l) :=
  search_brackets l.length l le_rfl

end

section

variable {κ α : Type*} [LinearOrder κ]

/-- The value in force at `x`, where it is `cur` before the first change. -/
def inForce (x : κ) : α → List (κ × α) → α
  | cur, [] => cur
  | cur, (k, a) :: l => if k ≤ x then inForce x a l else cur

variable {x k : κ} {cur a : α} {l : List (κ × α)}

theorem inForce_before (h : ∀ c ∈ l.head?, x < c.1) : inForce x cur l = cur := by
  cases l with
  | nil => rfl
  | cons c l => exact if_neg (not_le.2 (h c rfl))

theorem inForce_cons_of_le (h : k ≤ x) : inForce x cur ((k, a) :: l) = inForce x a l := if_pos h

theorem inForce_map {β : Type*} (f : α → β) :
    inForce x (f cur) (l.map fun c => (c.1, f c.2)) = f (inForce x cur l) := by
  induction l generalizing cur with
  | nil => rfl
  | cons c l ih =>
    obtain ⟨k, a⟩ := c
    rw [List.map_cons, inForce, inForce]
    split
    · exact ih
    · rfl

theorem inForce_mem {P : α → Prop} (hcur : P cur) (h : ∀ c ∈ l, P c.2) : P (inForce x cur l) := by
  induction l generalizing cur with
  | nil => exact hcur
  | cons c l ih =>
    obtain ⟨k, a⟩ := c
    rw [inForce]
    split
    · exact ih (h _ List.mem_cons_self) fun d hd => h d (List.mem_cons_of_mem _ hd)
    · exact hcur

/-- It is the value of the last change that is not above `x`. -/
theorem inForce_eq : ∀ {l : List (κ × α)} {i : ℕ} {cur : α}, l.Pairwise (fun c d => c.1 < d.1) →
    l[i]? = some (k, a) → k ≤ x → (∀ c, l[i + 1]? = some c → x < c.1) → inForce x cur l = a := by
  intro l
  induction l with
  | nil => intro i cur _ hi; cases hi
  | cons c l ih =>
    intro i cur hl hi hk hnext
    obtain ⟨hc, hl⟩ := List.pairwise_cons.1 hl
    cases i with
    | zero =>
      obtain rfl : c = (k, a) := Option.some.inj hi
      rw [inForce_cons_of_le hk]
      refine inForce_before fun d hd => hnext d ?_
      rw [List.head?_eq_getElem?] at hd
      exact hd
    | succ i =>
      have hlt : c.1 < k := hc _ (List.mem_of_getElem? hi)
      rw [show c = (c.1, c.2) from rfl, inForce_cons_of_le (hlt.le.trans hk)]
      exact ih hl hi hk hnext

end

end Timeline
