import Czy.Spec.CountDownLatch
import Mathlib.Data.Fintype.Basic

/-! A latch lets nobody through early, and leaves nobody behind. -/

namespace Czy.CountDownLatch

open Monitor StepRun

variable {τ : Type} {count count' : Int32} {signal : Signal Unit}

theorem wait_waits {c : Unit} (h : wait count = .waits c) : 0 < count := by
  unfold wait at h
  split at h
  · assumption
  · cases h

theorem wait_returns (h : wait count = .returns count' signal) : count' = count ∧ count ≤ 0 := by
  unfold wait at h
  split at h
  next hpos => cases h
  next hpos =>
    cases h
    exact ⟨rfl, Int32.not_lt.1 hpos⟩

theorem body_waits {op : LatchOp} {c : Unit} (h : body op count = .waits c) :
    op = .wait ∧ 0 < count := by
  cases op with
  | wait => exact ⟨rfl, wait_waits h⟩
  | countDown =>
    change countDown count = _ at h
    unfold countDown at h
    dsimp only at h
    split at h <;> cases h

theorem sub_one_pos (h : 0 < count) (hne : count - 1 ≠ 0) : 0 < count - 1 := by
  have hpos : (0 : ℤ) < count.toInt := Int32.lt_iff_toInt_lt.1 h
  have hle : (1 : Int32) ≤ count := Int32.le_iff_toInt_le.2 hpos
  have hsub := Int32.toInt_sub_of_le count 1 (by decide) hle
  have hne' : (count - 1).toInt ≠ 0 := fun h0 => hne (Int32.toInt_inj.1 h0)
  refine Int32.lt_iff_toInt_lt.2 ?_
  rw [hsub] at hne' ⊢
  change (0 : ℤ) < count.toInt - 1
  change count.toInt - 1 ≠ 0 at hne'
  omega

/-- The count comes from above 0 to 0 or below only through 0, and that is broadcast. -/
theorem broadcasts_body : Broadcasts body := by
  intro op count count' signal hret op' c hwaits
  obtain ⟨rfl, hpos⟩ := body_waits hwaits
  cases op with
  | wait =>
    obtain ⟨rfl, -⟩ := wait_returns hret
    exact .inl hwaits
  | countDown =>
    change countDown count = _ at hret
    unfold countDown at hret
    dsimp only at hret
    split at hret
    next h0 =>
      cases hret
      exact .inr rfl
    next hne =>
      cases hret
      exact .inl (if_pos (sub_one_pos hpos hne))

/-- In every run: with the count at 0 or below nobody is asleep, and only then a `wait` returns. -/
theorem latch_run [DecidableEq τ] [Fintype τ] {s : State τ Int32 LatchOp Unit}
    {ls : List (Label τ LatchOp)} (h : run (step body) (State.new count) ls = .ok s) :
    (s.shared ≤ 0 → ∀ t op c, s.place t ≠ .asleep op c) ∧
      ∀ l s' t, step body s l = .ok s' → s.running l = some (t, .wait) → s'.place t = .outside →
        s.shared ≤ 0 ∧ s'.shared ≤ 0 := by
  constructor
  · intro hle t op c hasleep
    obtain ⟨-, hpos⟩ := body_waits (broadcasts_body.run_waiting h t op c hasleep)
    exact Int32.not_lt.2 hle hpos
  · intro l s' t hs hrunning hout
    cases stepped_of_step hs with
    | waits t' op c running outcome shared place =>
      rw [hrunning] at running
      cases running
      rw [place, Function.update_self] at hout
      cases hout
    | returns t' op signal running outcome left others all =>
      rw [hrunning] at running
      cases running
      obtain ⟨heq, hle⟩ := wait_returns outcome
      rw [heq]
      exact ⟨hle, hle⟩
    | spurious t' op c label asleep shared place =>
      rw [label] at hrunning
      cases hrunning

theorem latch_run_released : ∃ s : State Bool Int32 LatchOp Unit,
    run (step body) (State.new 1) [.call true .wait none, .call false .countDown none] = .ok s ∧
      s.place true = .awake .wait ∧
      (s.shared ≤ 0 → ∀ t op c, s.place t ≠ .asleep op c) ∧
      ∀ l s' t, step body s l = .ok s' → s.running l = some (t, .wait) → s'.place t = .outside →
        s.shared ≤ 0 ∧ s'.shared ≤ 0 := by
  have hplace : (run (step body) (State.new 1 : State Bool Int32 LatchOp Unit)
      [.call true .wait none, .call false .countDown none]).toOption.map (fun s => s.place true) =
      some (.awake .wait) := rfl
  obtain ⟨s, h, hs⟩ := ok_of_toOption_map hplace
  exact ⟨s, h, hs, latch_run h⟩

end Czy.CountDownLatch
