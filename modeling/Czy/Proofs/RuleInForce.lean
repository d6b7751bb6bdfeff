import Czy.Sanity.ZoneData

/-! The rule that `findLocaltime` returns, by either of the keys. -/

namespace Czy.TimeZone

/-- `rule` is that of the last transition whose key is not above `v`, or the front one where
there is none. -/
def RuleInForce (data : Data) (comp : Comp) (v : ℤ) (rule : Localtime) : Prop :=
  (∃ (i : ℕ) (tr : Transition), data.transitions[i]? = some tr ∧ comp.key tr ≤ v ∧
    (∀ (j : ℕ) (tr' : Transition), i < j → data.transitions[j]? = some tr' → v < comp.key tr') ∧
    data.localtimes[tr.localtimeIdx]? = some rule) ∨
  (∀ tr ∈ data.transitions, v < comp.key tr) ∧ data.localtimes.head? = some rule

variable {data : Data} {comp : Comp}

theorem lt_key_of_lt (hsorted : data.transitions.Pairwise fun a b => comp.key a < comp.key b)
    {i j : ℕ} {v : ℤ} {tr tr' : Transition} (htr : data.transitions[i]? = some tr)
    (hij : i < j) (htr' : data.transitions[j]? = some tr')
    (hnext : comp.key tr = v ∨ ∀ next, data.transitions[i + 1]? = some next → v < comp.key next) :
    v < comp.key tr' := by
  have hlt : ∀ {k l : ℕ} {a b : Transition}, k < l → data.transitions[k]? = some a →
      data.transitions[l]? = some b → comp.key a < comp.key b := by
    intro k l a b hkl ha hb
    obtain ⟨hk, rfl⟩ := List.getElem?_eq_some_iff.1 ha
    obtain ⟨hl, rfl⟩ := List.getElem?_eq_some_iff.1 hb
    exact List.pairwise_iff_getElem.1 hsorted k l hk hl hkl
  rcases hnext with rfl | hnext
  · exact hlt hij htr htr'
  · rcases Nat.eq_or_lt_of_le (Nat.succ_le_of_lt hij) with rfl | hlater
    · exact hnext tr' htr'
    · obtain ⟨hj, -⟩ := List.getElem?_eq_some_iff.1 htr'
      have hin := List.getElem?_eq_getElem (l := data.transitions) (i := i + 1) (by omega)
      exact (hnext _ hin).trans (hlt hlater hin htr')

/-- Of ascending transitions the one in force is found, and no assertion fails. -/
theorem findLocaltime_inForce (h : data.Indexed)
    (hsorted : data.transitions.Pairwise fun a b => comp.key a < comp.key b) (sentry : Transition) :
    ∃ rule, findLocaltime data sentry comp = .ok rule ∧
      RuleInForce data comp (comp.key sentry) rule := by
  rcases findLocaltime_cases h sentry comp with ⟨hfront, hok⟩ | ⟨i, tr, htr, hle, hnext, hok⟩
  · refine ⟨_, hok, .inr ⟨fun tr htr => ?_, h.front_eq⟩⟩
    obtain ⟨front, rest, hlist⟩ := List.exists_cons_of_ne_nil (List.ne_nil_of_mem htr)
    rw [hlist] at hfront htr hsorted
    rcases List.mem_cons.1 htr with rfl | hin
    · exact hfront _ rfl
    · exact (hfront front rfl).trans ((List.pairwise_cons.1 hsorted).1 tr hin)
  · exact ⟨_, hok, .inl ⟨i, tr, htr, hle, fun j tr' hij htr' => lt_key_of_lt hsorted htr hij htr' hnext,
      h.typeOf_eq (List.mem_of_getElem? htr)⟩⟩

theorem findLocaltime_inForce_last :
    ∃ rule, findLocaltime ⟨[⟨0, 3600, 1⟩, ⟨7200, 7200, 0⟩], [⟨0, false, 0⟩, ⟨3600, true, 0⟩], []⟩
        ⟨7200, 0, 0⟩ ⟨true⟩ = .ok rule ∧
      RuleInForce ⟨[⟨0, 3600, 1⟩, ⟨7200, 7200, 0⟩], [⟨0, false, 0⟩, ⟨3600, true, 0⟩], []⟩ ⟨true⟩ 7200
        rule :=
  findLocaltime_inForce ⟨by decide, by decide⟩ (by decide) ⟨7200, 0, 0⟩

end Czy.TimeZone
