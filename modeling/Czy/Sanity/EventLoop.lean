import Czy.Lib.Run
import Czy.Spec.EventLoop
import Mathlib.Tactic

/-! The steps of an event loop's threads, one by one, and what they say of where the
loop's thread is. -/

namespace Czy.Net.EventLoop

open StepRun

variable {φ τ : Type} {l l' : EventLoop φ τ}

section Takes

variable [DecidableEq τ]

/-- The steps that `step` takes, each with the place of the thread that takes it. -/
inductive Takes (l : EventLoop φ τ) : LoopAction φ τ → EventLoop φ τ → Prop
  | poll (active : List Active) (hp : l.position = .poll) :
    Takes l (.poll active) { l with position := .dispatch active }
  | handleRead (rest : List Active) (hc : l.call = .out)
      (hp : l.position = .dispatch (.wakeupChannel :: rest)) :
    Takes l .handleEvent { l.handleRead with position := .dispatch rest }
  | channel (rest : List Active) (hc : l.call = .out) (hp : l.position = .dispatch (.channel :: rest)) :
    Takes l .handleEvent { l with position := .dispatch rest }
  | doPendingFunctors (hp : l.position = .dispatch []) :
    Takes l .doPendingFunctors { l with callingPendingFunctors := true, position := .swap }
  | swap (hp : l.position = .swap) :
    Takes l .swap { l with functors := l.pendingFunctors, pendingFunctors := [], position := .run false,
                           atSwap := l.pushed }
  | callFunctor (f : φ) (fs : List φ) (hp : l.position = .run false) (hf : l.functors = f :: fs) :
    Takes l .callFunctor
      { l with functors := fs, position := .run true, executed := l.executed ++ [f] }
  | functorReturns (hc : l.call = .out) (hp : l.position = .run true) :
    Takes l .functorReturns { l with position := .run false }
  | endPendingFunctors (hp : l.position = .run false) (hf : l.functors = []) :
    Takes l .endPendingFunctors { l with callingPendingFunctors := false, position := .poll }
  | push (f : φ) (hc : l.call = .out) (hp : l.inCallback = true) :
    Takes l (.push f) { l.pushBack f with call := .pushed }
  | test (hc : l.call = .pushed) :
    Takes l .test { l with call := if l.mustWake true then .waking else .out }
  | wakeup (hc : l.call = .waking) : Takes l .wakeup { l.wakeup with call := .out }
  | otherPush (t : τ) (f : φ) (hc : l.others t = .out) :
    Takes l (.otherPush t f) { l.pushBack f with others := Function.update l.others t .pushed }
  | otherTest (t : τ) (hc : l.others t = .pushed) :
    Takes l (.otherTest t)
      { l with others := Function.update l.others t (if l.mustWake false then .waking else .out) }
  | otherWakeup (t : τ) (hc : l.others t = .waking) :
    Takes l (.otherWakeup t) { l.wakeup with others := Function.update l.others t .out }

theorem takes_of_step {a : LoopAction φ τ} (hs : l.step a = .ok l') : Takes l a l' := by
  cases a with
  | handleEvent =>
    simp only [step] at hs
    split_ifs at hs with hc
    split at hs
    · rename_i rest hp
      cases hs
      exact .handleRead rest hc hp
    · rename_i rest hp
      cases hs
      exact .channel rest hc hp
    · cases hs
  | callFunctor =>
    simp only [step] at hs
    split_ifs at hs with hp
    split at hs
    · rename_i f fs hf
      cases hs
      exact .callFunctor f fs hp hf
    · cases hs
  | endPendingFunctors =>
    simp only [step] at hs
    split_ifs at hs with hp
    split at hs
    · rename_i hf
      cases hs
      exact .endPendingFunctors hp hf
    · cases hs
  | functorReturns =>
    simp only [step] at hs
    split_ifs at hs with hp
    cases hs
    exact .functorReturns hp.2 hp.1
  | push f =>
    simp only [step] at hs
    split_ifs at hs with hp
    cases hs
    exact .push f hp.2 hp.1
  | test =>
    by_cases hc : l.call = .pushed
    · rw [step, if_pos hc] at hs
      cases hs
      exact .test hc
    · rw [step, if_neg hc] at hs
      cases hs
  | otherTest t =>
    by_cases hc : l.others t = .pushed
    · rw [step, if_pos hc] at hs
      cases hs
      exact .otherTest t hc
    · rw [step, if_neg hc] at hs
      cases hs
  | _ =>
    simp only [step] at hs
    split_ifs at hs
    cases hs
    constructor
    assumption

end Takes

/-- Where the loop's thread is: only in a callback inside `queueInLoop`, with a batch
only behind the swap, and the flag set in `doPendingFunctors`. -/
structure Control (l : EventLoop φ τ) : Prop where
  call : l.inCallback = false → l.call = .out
  batch : l.functors ≠ [] → ∃ b, l.position = .run b
  calling : l.callingPendingFunctors = true ↔ l.position = .swap ∨ ∃ b, l.position = .run b

theorem new_control : Control (new : EventLoop φ τ) :=
  ⟨by simp [new], by simp [new], by simp [new]⟩

theorem Control.no_batch (h : l.Control) (hp : ∀ b, l.position ≠ .run b) : l.functors = [] := by
  by_contra hne
  obtain ⟨b, hb⟩ := h.batch hne
  exact hp b hb

/-- The loop's thread goes on to `p`, being in no call. -/
theorem Control.goto {l' : EventLoop φ τ} (hc : l.call = .out) (hcall : l'.call = l.call)
    (hbatch : l'.functors ≠ [] → ∃ b, l'.position = .run b)
    (hcalling : l'.callingPendingFunctors = true ↔ l'.position = .swap ∨ ∃ b, l'.position = .run b) :
    l'.Control :=
  ⟨fun _ => hcall.trans hc, hbatch, hcalling⟩

theorem step_control [DecidableEq τ] {a : LoopAction φ τ} (h : l.Control) (hs : l.step a = .ok l') :
    l'.Control := by
  have hcalling := h.calling
  cases takes_of_step hs with
  | poll active hp =>
    have hnone := h.no_batch (by simp [hp])
    exact .goto (h.call (by simp [inCallback, hp])) rfl (by simp [hnone]) (by simpa [hp] using hcalling)
  | handleRead rest hc hp =>
    have hnone := h.no_batch (by simp [hp])
    exact .goto hc rfl (by simp [handleRead, hnone]) (by simpa [handleRead, hp] using hcalling)
  | channel rest hc hp =>
    have hnone := h.no_batch (by simp [hp])
    exact .goto hc rfl (by simp [hnone]) (by simpa [hp] using hcalling)
  | doPendingFunctors hp =>
    have hnone := h.no_batch (by simp [hp])
    exact .goto (h.call (by simp [inCallback, hp])) rfl (by simp [hnone]) (by simp)
  | swap hp => exact .goto (h.call (by simp [inCallback, hp])) rfl (by simp) (by simpa [hp] using hcalling)
  | callFunctor f fs hp hf =>
    exact .goto (h.call (by simp [inCallback, hp])) rfl (by simp) (by simpa [hp] using hcalling)
  | functorReturns hc hp => exact .goto hc rfl (by simp) (by simpa [hp] using hcalling)
  | endPendingFunctors hp hf =>
    exact .goto (h.call (by simp [inCallback, hp])) rfl (by simp [hf]) (by simp)
  | push f hc hp => exact ⟨fun hn => absurd (hn.symm.trans hp) (by decide), h.batch, hcalling⟩
  | test hc =>
    refine ⟨fun hn => ?_, h.batch, hcalling⟩
    rw [h.call hn] at hc
    cases hc
  | wakeup hc => exact ⟨fun _ => rfl, h.batch, hcalling⟩
  | otherPush t f hc => exact ⟨h.call, h.batch, hcalling⟩
  | otherTest t hc => exact ⟨h.call, h.batch, hcalling⟩
  | otherWakeup t hc => exact ⟨h.call, h.batch, hcalling⟩

end Czy.Net.EventLoop
