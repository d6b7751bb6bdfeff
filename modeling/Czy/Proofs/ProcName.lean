import Czy.Spec.ProcessInfo

/-! The name of a process stands between the first '(' and the last ')'. -/

namespace Czy.ProcessInfo

open Search

variable {stat before after : List UInt8} {lp rp : ℕ}

theorem procname_found (hl : find lparen stat = some lp) (hr : rfind rparen stat = some rp)
    (hlt : lp < rp) : (procname stat).ptr = (data stat).drop (lp + 1) ∧
      (procname stat).length = intOfSize (rp - lp - 1) := by
  unfold procname
  split
  · rename_i hl' hr'
    obtain rfl := Option.some.inj (hl.symm.trans hl')
    obtain rfl := Option.some.inj (hr.symm.trans hr')
    rw [if_pos hlt]
    exact ⟨rfl, rfl⟩
  · rename_i hnone
    exact absurd hr (hnone lp rp hl)

theorem procname_between (name : List UInt8) (hbefore : lparen ∉ before) (hafter : rparen ∉ after) :
    (procname (before ++ lparen :: (name ++ rparen :: after))).ptr =
        name ++ rparen :: (after ++ [0]) ∧
      (procname (before ++ lparen :: (name ++ rparen :: after))).length = intOfSize name.length := by
  have hl : find lparen (before ++ lparen :: (name ++ rparen :: after)) = some before.length :=
    find_append hbefore
  have hassoc : before ++ lparen :: (name ++ rparen :: after) =
      (before ++ lparen :: name) ++ rparen :: after := by simp
  have hr := rfind_append (p := before ++ lparen :: name) hafter
  rw [← hassoc, List.length_append, List.length_cons] at hr
  obtain ⟨hptr, hlength⟩ := procname_found hl hr (by omega)
  constructor
  · rw [hptr, data]
    simp [List.drop_append]
  · rw [hlength]
    congr 1
    omega

theorem procname_none (h : ∀ i j : ℕ, i < j → stat[i]? = some lparen → stat[j]? ≠ some rparen) :
    procname stat = .new := by
  unfold procname
  split
  · rename_i lp rp hl hr
    exact if_neg fun hlt => h lp rp hlt (getElem?_of_find hl) (getElem?_of_rfind hr)
  · rfl

/-- A name of fewer than 2^31 bytes, parentheses included, and nothing for a text without a
name. -/
theorem procname_exact : (∀ before name after : List UInt8, lparen ∉ before → rparen ∉ after →
      name.length < 2 ^ 31 →
      (procname (before ++ lparen :: (name ++ rparen :: after))).asString = some name) ∧
    ∀ stat : List UInt8, (∀ i j : ℕ, i < j → stat[i]? = some lparen → stat[j]? ≠ some rparen) →
      (procname stat).asString = some [] := by
  constructor
  · intro before name after hbefore hafter hname
    obtain ⟨hptr, hlength⟩ := procname_between name hbefore hafter
    have hnonneg := (intOfSize_nonneg_iff (by omega)).2 hname
    rw [StringPiece.asString, hlength, if_neg (by omega), hptr, sizeOfInt_intOfSize hname,
      List.take_left']
    rfl
  · intro stat hstat
    rw [procname_none hstat]
    rfl

theorem procname_exact_nested :
    (procname [49, 32, 40, 97, 41, 32, 40, 98, 41, 32, 83]).asString = some [97, 41, 32, 40, 98] ∧
      (procname [41, 40]).asString = some [] := by
  refine ⟨procname_exact.1 [49, 32] [97, 41, 32, 40, 98] [32, 83] (by decide) (by decide) (by decide),
    procname_exact.2 [41, 40] fun i j hij hi hj => ?_⟩
  obtain ⟨hjlt, -⟩ := List.getElem?_eq_some_iff.1 hj
  have hlen : ([41, 40] : List UInt8).length = 2 := rfl
  obtain rfl : i = 0 := by omega
  cases hi

/-- A name of 2^31 bytes has a negative length. -/
theorem procname_long : ∃ before name after : List UInt8, lparen ∉ before ∧ rparen ∉ after ∧
    name.length = 2 ^ 31 ∧
    (procname (before ++ lparen :: (name ++ rparen :: after))).asString ≠ some name := by
  refine ⟨[], List.replicate (2 ^ 31) 0, [], List.not_mem_nil, List.not_mem_nil,
    List.length_replicate, ?_⟩
  obtain ⟨-, hlength⟩ := procname_between (List.replicate (2 ^ 31) 0)
    (show lparen ∉ [] from List.not_mem_nil) (show rparen ∉ [] from List.not_mem_nil)
  rw [List.length_replicate] at hlength
  rw [StringPiece.asString, hlength, if_pos (by decide)]
  exact (Option.some_ne_none _).symm

end Czy.ProcessInfo
