import Czy.Spec.ZoneData

/-! What the search for the local time type finds: never a type that is not there, and in
ascending transitions the type in force. -/

namespace Czy

open Timeline

/-- What `comp` compares. -/
def Comp.key (comp : Comp) (tr : Transition) : ℤ :=
  if comp.compareGmt then tr.gmttime else tr.localtime

variable {comp : Comp} {lhs rhs tr sentry : Transition}

theorem Comp.less_iff : comp.less lhs rhs = true ↔ comp.key lhs < comp.key rhs := by
  unfold Comp.less Comp.key
  split <;> exact decide_eq_true_iff

theorem Comp.equal_iff : comp.equal lhs rhs = true ↔ comp.key lhs = comp.key rhs := by
  unfold Comp.equal Comp.key
  split <;> exact beq_iff_eq

namespace TimeZone

/-- There is a type, and every transition names one. -/
structure Data.Indexed (data : Data) : Prop where
  localtimes : data.localtimes ≠ []
  transitions : ∀ tr ∈ data.transitions, tr.localtimeIdx < data.localtimes.length

/-- The type that a transition names. -/
def Data.typeOf (data : Data) (tr : Transition) : Localtime :=
  data.localtimes[tr.localtimeIdx]?.getD ⟨0, false, 0⟩

/-- The type before the first transition. -/
def Data.front (data : Data) : Localtime := data.localtimes.headD ⟨0, false, 0⟩

variable {data : Data}

theorem Data.Indexed.front_eq (h : data.Indexed) : data.localtimes.head? = some data.front := by
  obtain ⟨ty, types, htypes⟩ := List.exists_cons_of_ne_nil h.localtimes
  rw [Data.front, htypes]
  rfl

theorem Data.Indexed.typeOf_eq (h : data.Indexed) (htr : tr ∈ data.transitions) :
    data.localtimes[tr.localtimeIdx]? = some (data.typeOf tr) := by
  have hlt := h.transitions tr htr
  rw [Data.typeOf, List.getElem?_eq_getElem hlt]
  rfl

/-- The type found is the front one, or that of a transition at or before the sentry, with the
sentry at it or before the next. -/
theorem findLocaltime_cases (h : data.Indexed) (sentry : Transition) (comp : Comp) :
    ((∀ front ∈ data.transitions.head?, comp.key sentry < comp.key front) ∧
      findLocaltime data sentry comp = .ok data.front) ∨
    ∃ i tr, data.transitions[i]? = some tr ∧ comp.key tr ≤ comp.key sentry ∧
      (comp.key tr = comp.key sentry ∨
        ∀ next, data.transitions[i + 1]? = some next → comp.key sentry < comp.key next) ∧
      findLocaltime data sentry comp = .ok (data.typeOf tr) := by
  unfold findLocaltime
  split
  next hfront =>
    left
    rw [h.front_eq]
    refine ⟨fun front hin => ?_, rfl⟩
    rw [hin] at hfront
    exact Comp.less_iff.1 hfront
  next hfront =>
    right
    obtain ⟨hle, hbefore, hhere⟩ :=
      lowerBound_brackets (fun tr => comp.less tr sentry) data.transitions
    generalize lowerBound (fun tr => comp.less tr sentry) data.transitions = i at hle hbefore hhere
    -- the transition before the bound, where there is one
    have hprev : ∀ {j}, j + 1 = i → ∃ tr, data.transitions[j]? = some tr ∧
        comp.key tr < comp.key sentry ∧ tr ∈ data.transitions := by
      intro j hj
      have hlt : j < data.transitions.length := by omega
      refine ⟨_, List.getElem?_eq_getElem hlt, Comp.less_iff.1 ?_, List.getElem_mem hlt⟩
      exact hbefore j _ hj (List.getElem?_eq_getElem hlt)
    dsimp only
    cases htr : data.transitions[i]? with
    | some tr =>
      have hnot := hhere tr htr
      dsimp only
      split
      next hequal =>
        have hkey := Comp.equal_iff.1 hequal
        refine ⟨i, tr, htr, hkey.ge, .inl hkey.symm, ?_⟩
        rw [h.typeOf_eq (List.mem_of_getElem? htr)]
        rfl
      next hequal =>
        have hlt : comp.key sentry < comp.key tr := by
          have hle : ¬ comp.key tr < comp.key sentry := fun hlt => by
            rw [Comp.less_iff.2 hlt] at hnot
            cases hnot
          exact lt_of_le_of_ne (not_lt.1 hle) fun heq => hequal (Comp.equal_iff.2 heq)
        cases i with
        | zero =>
          refine absurd ?_ hfront
          rw [List.head?_eq_getElem?, htr]
          exact Comp.less_iff.2 hlt
        | succ j =>
          obtain ⟨prev, hj, hkey, hmem⟩ := hprev rfl
          refine ⟨j, prev, hj, hkey.le, .inr fun next hnext => ?_, ?_⟩
          · rw [htr] at hnext
            cases hnext
            exact hlt
          · rw [check_bind (Nat.succ_ne_zero j)]
            simp only [Nat.add_sub_cancel, hj, deref_some, ok_bind, h.typeOf_eq hmem]
    | none =>
      have hlen := List.getElem?_eq_none_iff.1 htr
      dsimp only
      cases i with
      | zero =>
        have hnil : data.transitions = [] := List.length_eq_zero_iff.1 (by omega)
        rw [hnil] at hfront
        exact absurd rfl hfront
      | succ j =>
        obtain ⟨prev, hj, hkey, hmem⟩ := hprev rfl
        refine ⟨j, prev, hj, hkey.le, .inr fun next hnext => ?_, ?_⟩
        · rw [htr] at hnext
          cases hnext
        · have hlast : data.transitions.getLast? = some prev := by
            rw [List.getLast?_eq_getElem?, show data.transitions.length - 1 = j by omega, hj]
          rw [hlast, deref_some, ok_bind, h.typeOf_eq hmem, deref_some]

/-- The transitions as changes of the type at what `comp` compares. -/
def changes (data : Data) (comp : Comp) : List (ℤ × Localtime) :=
  data.transitions.map fun tr => (comp.key tr, data.typeOf tr)

/-- In ascending transitions the search finds the type in force. -/
theorem findLocaltime_eq (h : data.Indexed)
    (hsorted : (changes data comp).Pairwise fun c d => c.1 < d.1) (sentry : Transition) :
    findLocaltime data sentry comp =
      .ok (inForce (comp.key sentry) data.front (changes data comp)) := by
  rcases findLocaltime_cases h sentry comp with ⟨hfront, hok⟩ | ⟨i, tr, htr, hle, hnext, hok⟩
  · rw [hok, inForce_before]
    intro c hc
    rw [changes, List.head?_map, Option.mem_def, Option.map_eq_some_iff] at hc
    obtain ⟨front, hin, rfl⟩ := hc
    exact hfront front hin
  · have hat : (changes data comp)[i]? = some (comp.key tr, data.typeOf tr) := by
      rw [changes, List.getElem?_map, htr]
      rfl
    rw [hok, inForce_eq hsorted hat hle]
    intro c hc
    rcases hnext with heq | hnext
    · rw [← heq]
      obtain ⟨hi, hat⟩ := List.getElem?_eq_some_iff.1 hat
      obtain ⟨hj, hc⟩ := List.getElem?_eq_some_iff.1 hc
      have hlt := List.pairwise_iff_getElem.1 hsorted i (i + 1) hi hj (Nat.lt_succ_self i)
      rw [hat, hc] at hlt
      exact hlt
    · rw [changes, List.getElem?_map, Option.map_eq_some_iff] at hc
      obtain ⟨next, hin, rfl⟩ := hc
      exact hnext next hin

end TimeZone

end Czy
