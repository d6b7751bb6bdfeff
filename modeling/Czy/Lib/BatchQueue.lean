import Czy.Lib.Run
import Mathlib.Data.List.Infix

/-! A queue that is drained in batches: the consumer takes all that is pending at
once and works it off while new items arrive. -/

namespace BatchQueue

variable {α : Type*}

/-- The items that wait, the rest of the batch, and as history the items taken out,
those put in, and those that had been put in when the batch was taken. -/
structure State (α : Type*) where
  pending : List α
  batch : List α
  taken : List α
  pushed : List α
  atSwap : List α

def empty : State α := ⟨[], [], [], [], []⟩

inductive Step : State α → State α → Prop
  | push (s : State α) (x : α) :
    Step s { s with pending := s.pending ++ [x], pushed := s.pushed ++ [x] }
  | swap (s : State α) (h : s.batch = []) :
    Step s { s with pending := [], batch := s.pending, atSwap := s.pushed }
  | take (s : State α) (x : α) (xs : List α) (h : s.batch = x :: xs) :
    Step s { s with batch := xs, taken := s.taken ++ [x] }

/-- Items come out in the order in which they were put in, and a batch holds none
that was put in after it was taken. -/
structure Fifo (s : State α) : Prop where
  order : s.taken ++ s.batch ++ s.pending = s.pushed
  batch : s.taken ++ s.batch = s.atSwap
  before : s.atSwap <+: s.pushed

theorem fifo_empty : Fifo (empty : State α) := ⟨rfl, rfl, List.prefix_rfl⟩

theorem fifo_step {s s' : State α} (h : Fifo s) (hs : Step s s') : Fifo s' := by
  cases hs with
  | push x => exact ⟨by rw [← h.order]; simp, h.batch, h.before.trans (List.prefix_append _ _)⟩
  | swap hb =>
    have horder := h.order
    rw [hb, List.append_nil] at horder
    exact ⟨by rw [List.append_nil]; exact horder, horder, List.prefix_rfl⟩
  | take x xs hb =>
    have hmove : s.taken ++ [x] ++ xs = s.taken ++ s.batch := by rw [hb]; simp
    exact ⟨by rw [hmove]; exact h.order, by rw [hmove]; exact h.batch, h.before⟩

/-- Whatever refines the queue, idling included, keeps its order. -/
theorem fifo_of_refines {σ ο ε : Type*} {step : σ → ο → Except ε σ} {abs : σ → State α} {I : σ → Prop}
    (hinv : ∀ s o s', I s → step s o = .ok s' → I s')
    (href : ∀ s o s', I s → step s o = .ok s' → abs s' = abs s ∨ Step (abs s) (abs s'))
    {s s' : σ} {os : List ο} (hI : I s) (h : Fifo (abs s)) (hrun : StepRun.run step s os = .ok s') :
    Fifo (abs s') := by
  refine (StepRun.run_inv (I := fun s => I s ∧ Fifo (abs s)) (fun s o s' h hs => ?_) ⟨hI, h⟩ hrun).2
  refine ⟨hinv s o s' h.1 hs, ?_⟩
  rcases href s o s' h.1 hs with heq | hstep
  · rw [heq]
    exact h.2
  · exact fifo_step h.2 hstep

end BatchQueue
