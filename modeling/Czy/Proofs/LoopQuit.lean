import Czy.Lib.Run
import Czy.Spec.LoopQuit

/-! `loop` against `quit`. The two flags are set the wrong way round at the start of
`loop`, which therefore returns without a single iteration. -/

namespace Czy.Net.LoopState

open StepRun

variable {φ τ : Type} {l l' : LoopState φ τ}

/-- `loop` returns only after a `quit`, `looping_` is set while it has not returned, and no
iteration is begun after a `quit`. -/
structure Protocol (l : LoopState φ τ) : Prop where
  returns : l.phase = .returned → 0 < l.quits
  looping : l.phase ≠ .outside → l.phase ≠ .returned → l.looping = true
  prompt : l.begunAfterQuit = 0

structure NotEntered (l : LoopState φ τ) : Prop where
  phase : l.phase = .outside
  begun : l.begunAfterQuit = 0

theorem NotEntered.protocol (h : NotEntered l) : Protocol l where
  returns hret := by rw [h.phase] at hret; cases hret
  looping hne := absurd h.phase hne
  prompt := h.begun

theorem notEntered_new : NotEntered (new : LoopState φ τ) := ⟨rfl, rfl⟩

theorem ofLoop_of_endsBody {a : LoopAction φ τ} (h : endsBody a = true) : ofLoop a = true := by
  cases a <;> simp_all [endsBody, ofLoop]

variable [DecidableEq τ]

/-- Once entered, `loop` runs with `looping_` unset. -/
theorem enter_not_protocol (hs : l.step .loop = .ok l') : ¬ Protocol l' := by
  simp only [step] at hs
  split at hs
  · unfold enter at hs
    split at hs
    · cases hs
    · cases hs
      exact fun h => Bool.false_ne_true (h.looping nofun nofun)
  · cases hs

theorem act_of_not_body {a : LoopAction φ τ} (hne : l.phase ≠ .body) (hs : l.step (.act a) = .ok l') :
    ∃ events, l' = { l with events := events } := by
  simp only [step] at hs
  split at hs
  · cases hs
  · rename_i hguard
    have hother : endsBody a = false := by
      by_contra hends
      exact hguard ⟨ofLoop_of_endsBody (by simpa using hends), hne⟩
    split at hs
    · rename_i events _
      cases hs
      exact ⟨events, by simp only [hother, Bool.false_eq_true, if_false]⟩
    · cases hs

theorem step_notEntered (h : NotEntered l) {o : LoopOp φ τ} (ho : o ≠ .loop)
    (hs : l.step o = .ok l') : NotEntered l' := by
  cases o with
  | loop => exact absurd rfl ho
  | test => simp [step, h.phase] at hs
  | act a =>
    obtain ⟨events, rfl⟩ := act_of_not_body (by simp [h.phase]) hs
    exact ⟨h.phase, h.begun⟩
  | loopAgain => simp [step, h.phase] at hs
  | leave => simp [step, h.phase] at hs
  | quit => simp [step, h.phase] at hs
  | otherQuit t =>
    simp only [step] at hs
    split at hs
    · cases hs
      exact ⟨h.phase, h.begun⟩
    · cases hs

theorem step_protocol_iff (h : NotEntered l) {o : LoopOp φ τ} (hs : l.step o = .ok l') :
    Protocol l' ↔ o ≠ .loop := by
  constructor
  · rintro hkept rfl
    exact enter_not_protocol hs hkept
  · intro ho
    exact (step_notEntered h ho hs).protocol

/-- The protocol is kept in exactly the runs in which `loop` is not called. -/
theorem loop_quit_iff {os : List (LoopOp φ τ)} (hrun : run step new os = .ok l) :
    (Protocol (new : LoopState φ τ) ∧ Holds step (fun _ _ l => Protocol l) new os) ↔
      ∀ o ∈ os, o ≠ .loop := by
  rw [and_iff_right notEntered_new.protocol, ← along_forall_iff hrun]
  refine holds_iff_along (I := NotEntered) (P := fun l o => ∃ l', step l o = .ok l')
    ?_ ?_ notEntered_new (along_ok hrun)
  · rintro l o h ⟨l', hs⟩
    constructor
    · rintro ⟨l', hs, hkept⟩
      exact (step_protocol_iff h hs).1 hkept
    · intro ho
      exact ⟨l', hs, (step_protocol_iff h hs).2 ho⟩
  · intro l o l' h _ hs hkept
    exact step_notEntered h ((step_protocol_iff h hs).1 hkept) hs

theorem loop_quit_iff_quit :
    Holds step (fun _ _ l => Protocol l) (new : LoopState ℕ Unit)
      [.otherQuit (), .act (.otherWakeup ())] :=
  ((loop_quit_iff rfl).2 (by simp)).2

/-- `loop` returns though `quit` was never called. -/
theorem loop_quit_fails : ∃ l : LoopState ℕ Unit,
    run step new [.loop, .test, .leave] = .ok l ∧ l.phase = .returned ∧ l.quits = 0 ∧
      ¬ Holds step (fun _ _ l => Protocol l) (new : LoopState ℕ Unit) [.loop, .test, .leave] := by
  refine ⟨_, rfl, rfl, rfl, ?_⟩
  rintro ⟨_, hs, hkept, -⟩
  exact enter_not_protocol hs hkept

structure NoIteration (l : LoopState φ τ) : Prop where
  body : l.phase ≠ .body
  quit : l.phase ≠ .outside → l.quit = true
  iteration : l.iteration = 0

theorem step_noIteration (h : NoIteration l) {o : LoopOp φ τ} (hs : l.step o = .ok l') :
    NoIteration l' := by
  cases o with
  | loop =>
    simp only [step, enter] at hs
    split at hs
    · split at hs
      · cases hs
      · cases hs
        exact ⟨nofun, fun _ => rfl, h.iteration⟩
    · cases hs
  | test =>
    simp only [step] at hs
    split at hs
    · rename_i hphase
      have hquit : l.quit = true := h.quit (by simp [hphase])
      rw [if_pos hquit] at hs
      cases hs
      exact ⟨nofun, fun _ => hquit, h.iteration⟩
    · cases hs
  | act a =>
    obtain ⟨events, rfl⟩ := act_of_not_body h.body hs
    exact ⟨h.body, h.quit, h.iteration⟩
  | loopAgain => simp [step, h.body] at hs
  | leave =>
    simp only [step] at hs
    split at hs
    · rename_i hphase
      cases hs
      exact ⟨nofun, fun _ => h.quit (by simp [hphase]), h.iteration⟩
    · cases hs
  | quit => simp [step, h.body] at hs
  | otherQuit t =>
    simp only [step] at hs
    split at hs
    · cases hs
      exact ⟨h.body, fun _ => rfl, h.iteration⟩
    · cases hs

theorem no_iteration {os : List (LoopOp φ τ)} (hrun : run step new os = .ok l) :
    l.iteration = 0 ∧ l.phase ≠ .body :=
  have h := run_inv (fun _ _ _ h => step_noIteration h) (⟨nofun, nofun, rfl⟩ : NoIteration new) hrun
  ⟨h.iteration, h.body⟩

end Czy.Net.LoopState
