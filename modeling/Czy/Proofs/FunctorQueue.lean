import Czy.Lib.BatchQueue
import Czy.Sanity.EventLoop

/-! The functors of an event loop under any number of threads. -/

namespace Czy.Net

open StepRun

namespace EventLoop

variable {φ τ : Type} {l l' : EventLoop φ τ}

/-- The functors as a queue that is drained in batches. -/
def abs (l : EventLoop φ τ) : BatchQueue.State φ :=
  ⟨l.pendingFunctors, l.functors, l.executed, l.pushed, l.atSwap⟩

/-- Each step of a thread is a step of the queue or leaves it alone. -/
theorem step_refines [DecidableEq τ] {a : LoopAction φ τ} (h : l.Control) (hs : l.step a = .ok l') :
    l'.abs = l.abs ∨ BatchQueue.Step l.abs l'.abs := by
  cases takes_of_step hs with
  | swap hp => exact Or.inr (.swap l.abs (h.no_batch (by simp [hp])))
  | callFunctor f fs hp hf => exact Or.inr (.take l.abs f fs hf)
  | push f hc hp => exact Or.inr (.push l.abs f)
  | otherPush t f hc => exact Or.inr (.push l.abs f)
  | _ => exact Or.inl rfl

/-- What was pushed before a `doPendingFunctors` is in its batch, once that is taken. -/
def InBatch (fs : List φ) (l : EventLoop φ τ) : Prop :=
  fs <+: l.pushed ∧ (l.position = .swap ∨ fs <+: l.atSwap)

theorem step_inBatch [DecidableEq τ] {fs : List φ} {a : LoopAction φ τ} (h : InBatch fs l)
    (hs : l.step a = .ok l') : InBatch fs l' := by
  obtain ⟨hpushed, hbatch⟩ := h
  cases takes_of_step hs with
  | swap hp => exact ⟨hpushed, .inr hpushed⟩
  | push f hc hp => exact ⟨hpushed.trans (List.prefix_append _ _), hbatch⟩
  | otherPush t f hc => exact ⟨hpushed.trans (List.prefix_append _ _), hbatch⟩
  | doPendingFunctors hp => exact ⟨hpushed, .inl rfl⟩
  | poll _ hp | handleRead _ _ hp | channel _ _ hp | callFunctor _ _ hp | functorReturns _ hp
  | endPendingFunctors hp =>
    refine ⟨hpushed, .inr (hbatch.resolve_left fun hswap => ?_)⟩
    rw [hp] at hswap
    cases hswap
  | _ => exact ⟨hpushed, hbatch⟩

end EventLoop

variable {φ τ : Type} [DecidableEq τ]

/-- In every run, the functors called, the rest of the batch and those pending are the
ones pushed so far, in order; a batch holds only functors pushed before it was taken; and a
`doPendingFunctors` that has ended has called all that had been pushed when it began. -/
theorem functors_in_order (actions : List (LoopAction φ τ)) (l : EventLoop φ τ)
    (hrun : run EventLoop.step .new actions = .ok l) :
    (l.executed ++ l.functors ++ l.pendingFunctors = l.pushed ∧
      l.executed ++ l.functors = l.atSwap ∧ l.atSwap <+: l.pushed) ∧
    ((∀ b, l.position ≠ .run b) → l.functors = [] ∧ l.executed = l.atSwap) ∧
    ∀ before rest l₀, actions = before ++ .doPendingFunctors :: (rest ++ [.endPendingFunctors]) →
      run EventLoop.step .new before = .ok l₀ → l₀.pushed <+: l.executed := by
  have hfifo : BatchQueue.Fifo l.abs := BatchQueue.fifo_of_refines (I := EventLoop.Control)
    (fun _ _ _ h hs => EventLoop.step_control h hs) (fun _ _ _ h hs => EventLoop.step_refines h hs)
    EventLoop.new_control BatchQueue.fifo_empty hrun
  have hbatch : l.executed ++ l.functors = l.atSwap := hfifo.batch
  have hcontrol : l.Control :=
    run_inv (fun _ _ _ h hs => EventLoop.step_control h hs) EventLoop.new_control hrun
  refine ⟨⟨hfifo.order, hbatch, hfifo.before⟩, fun hpos => ?_, ?_⟩
  · have hnone := hcontrol.no_batch hpos
    rw [hnone, List.append_nil] at hbatch
    exact ⟨hnone, hbatch⟩
  · rintro before rest l₀ rfl hbefore
    rw [run_append hbefore] at hrun
    obtain ⟨l₁, hbegin, hrun⟩ := run_cons_ok hrun
    obtain ⟨l₂, hrest, hend⟩ := run_append_ok hrun
    obtain ⟨l₃, hlast, hnil⟩ := run_cons_ok hend
    obtain rfl := Except.ok.inj hnil
    have hin : EventLoop.InBatch l₀.pushed l₂ := by
      refine run_inv (fun _ _ _ h hs => EventLoop.step_inBatch h hs) ?_ hrest
      cases EventLoop.takes_of_step hbegin with
      | doPendingFunctors hp => exact ⟨List.prefix_refl _, .inl rfl⟩
    cases EventLoop.takes_of_step hlast with
    | endPendingFunctors hp hnone =>
      have htaken := hin.2.resolve_left fun hswap => by rw [hp] at hswap; cases hswap
      have hall : l₂.executed ++ l₂.functors = l₂.atSwap := hbatch
      rw [hnone, List.append_nil] at hall
      exact hall ▸ htaken

theorem functors_in_order_reentrant :
    ∃ l : EventLoop ℕ Unit, run EventLoop.step .new
      [.otherPush () 1, .poll [], .doPendingFunctors, .swap, .callFunctor, .push 2] = .ok l ∧
      l.pushed = [1, 2] ∧ l.executed ++ l.functors ++ l.pendingFunctors = l.pushed := by
  obtain ⟨l, hl, hpushed⟩ := ok_of_toOption_map (x := run EventLoop.step (.new : EventLoop ℕ Unit)
    [.otherPush () 1, .poll [], .doPendingFunctors, .swap, .callFunctor, .push 2])
    (f := fun l => l.pushed) (a := [1, 2]) (by decide +kernel)
  exact ⟨l, hl, hpushed, (functors_in_order _ l hl).1.1⟩

end Czy.Net
