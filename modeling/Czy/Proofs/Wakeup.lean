import Czy.Sanity.EventLoop

/-! The wake-up of an event loop that is about to sleep. -/

namespace Czy.Net

open StepRun

namespace EventLoop

variable {φ τ : Type} {l l' : EventLoop φ τ}

/-- If a functor is pending, the eventfd is readable or another thread has pushed and
still has its wake-up to write. -/
def Covered (l : EventLoop φ τ) : Prop :=
  l.pendingFunctors ≠ [] → l.wakeupFd ≠ 0 ∨ ∃ t, l.others t ≠ .out

/-- From the swap to the next poll nothing resets the eventfd, and the flag makes the
loop's thread wake itself. -/
def Awake (l : EventLoop φ τ) : Prop :=
  match l.position with
  | .poll => l.Covered
  | .run _ => l.Covered ∨ l.call ≠ .out
  | .dispatch _ | .swap => True

theorem Awake.covered (h : l.Awake) (hc : l.call = .out) {b : Bool} (hp : l.position = .run b) :
    l.Covered := by
  unfold Awake at h
  rw [hp] at h
  exact h.resolve_right (fun hne => hne hc)

theorem wakeup_covered {l' : EventLoop φ τ} (hw : l'.wakeupFd = l.wakeupFd + 1) : l'.Covered :=
  fun _ => Or.inl (by rw [hw]; exact Nat.succ_ne_zero _)

theorem awake_of_covered (h : l.Covered) : l.Awake := by
  unfold Awake
  split
  · exact h
  · exact Or.inl h
  · trivial
  · trivial

theorem other_covered [DecidableEq τ] {t : τ} {q : QueueCall} (hq : q ≠ .out)
    (ho : l'.others = Function.update l.others t q) : l'.Covered :=
  fun _ => Or.inr ⟨t, by rw [ho, Function.update_self]; exact hq⟩

theorem step_awake [DecidableEq τ] {a : LoopAction φ τ} (h : l.Control) (ha : l.Awake)
    (hs : l.step a = .ok l') : l'.Awake := by
  cases takes_of_step hs with
  | poll active hp => trivial
  | handleRead rest hc hp => trivial
  | channel rest hc hp => trivial
  | doPendingFunctors hp => trivial
  | swap hp => exact Or.inl fun hne => absurd rfl hne
  | callFunctor f fs hp hf =>
    have hcov := ha.covered (h.call (by simp [inCallback, hp])) hp
    exact Or.inl hcov
  | functorReturns hc hp => exact Or.inl (ha.covered hc hp)
  | endPendingFunctors hp hf => exact ha.covered (h.call (by simp [inCallback, hp])) hp
  | push f hc hp =>
    unfold Awake pushBack
    simp only [inCallback] at hp
    split at hp
    · rename_i rest hpos
      simp only [hpos]
    · rename_i hpos
      simp only [hpos]
      exact Or.inr (by decide)
    · cases hp
  | test hc =>
    have hcb : l.inCallback = true := by
      by_contra hn
      rw [h.call (Bool.not_eq_true _ ▸ hn)] at hc
      cases hc
    unfold Awake
    simp only [inCallback] at hcb
    split at hcb
    · rename_i rest hpos
      simp only [hpos]
    · rename_i hpos
      have hcalling := h.calling.2 (Or.inr ⟨true, hpos⟩)
      simp only [hpos]
      exact Or.inr (by simp [mustWake, hcalling])
    · cases hcb
  | wakeup hc => exact awake_of_covered (wakeup_covered (l := l) rfl)
  | otherPush t f hc => exact awake_of_covered (other_covered (q := .pushed) (by decide) rfl)
  | otherTest t hc => exact awake_of_covered (other_covered (q := .waking) (by decide) rfl)
  | otherWakeup t hc => exact awake_of_covered (wakeup_covered (l := l) rfl)

end EventLoop

variable {φ τ : Type} [DecidableEq τ]

/-- Whenever the loop's thread is at its poll with functors pending, the eventfd is
readable or the wake-up of another thread is still to come. -/
theorem no_lost_wakeup (actions : List (LoopAction φ τ)) (l : EventLoop φ τ)
    (hrun : run EventLoop.step .new actions = .ok l) (hp : l.position = .poll)
    (hne : l.pendingFunctors ≠ []) : l.wakeupFd ≠ 0 ∨ ∃ t, l.others t ≠ .out := by
  have hinv := run_inv (I := fun l : EventLoop φ τ => l.Control ∧ l.Awake)
    (fun _ _ _ h hs => ⟨EventLoop.step_control h.1 hs, EventLoop.step_awake h.1 h.2 hs⟩)
    ⟨EventLoop.new_control, fun hne => absurd rfl hne⟩ hrun
  have hawake := hinv.2
  unfold EventLoop.Awake at hawake
  rw [hp] at hawake
  exact hawake hne

theorem no_lost_wakeup_reentrant :
    ∃ l : EventLoop ℕ Unit, run EventLoop.step .new
      [.otherPush () 1, .otherTest (), .otherWakeup (), .poll [.wakeupChannel], .handleEvent,
        .doPendingFunctors, .swap, .callFunctor, .push 2, .test, .wakeup, .functorReturns,
        .endPendingFunctors] = .ok l ∧ (l.wakeupFd ≠ 0 ∨ ∃ t, l.others t ≠ .out) := by
  obtain ⟨l, hl, hat⟩ := ok_of_toOption_map (x := run EventLoop.step (.new : EventLoop ℕ Unit)
      [.otherPush () 1, .otherTest (), .otherWakeup (), .poll [.wakeupChannel], .handleEvent,
        .doPendingFunctors, .swap, .callFunctor, .push 2, .test, .wakeup, .functorReturns,
        .endPendingFunctors])
    (f := fun l => (l.position, l.pendingFunctors)) (a := (.poll, [2])) (by decide +kernel)
  obtain ⟨hp, hpend⟩ := Prod.mk.inj hat
  exact ⟨l, hl, no_lost_wakeup _ l hl hp (by rw [hpend]; decide)⟩

end Czy.Net
