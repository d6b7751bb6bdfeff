import Czy.Spec.Atomic
import Czy.Spec.TimerQueue
import Mathlib.Data.Fintype.Basic

/-! Timers in a process with any number of loops, which any number of threads create:
`Timer::s_numCreated_` and the constructor of net/timer.h, as `TimerQueue::addTimer` of
net/timer_queue.cpp calls it. Between the step on the counter and the rest of the constructor
the other threads go on. -/

namespace Czy.Net

/-- `numbers` are the values that threads in the constructor have read off the counter. -/
structure TimerProcess (ι τ : Type) where
  numCreated : AtomicInt64
  numbers : τ → Option ℤ
  queues : ι → TimerQueue

inductive TimerProcessOp (ι τ : Type)
  | fetch (thread : τ)
  | construct (thread : τ) (loop : ι) (timer : ℕ) (whenAt interval : ℤ) (repeats : Bool)
  | queue (loop : ι) (o : TimerOp)

namespace TimerProcess

variable {ι τ : Type} [DecidableEq ι] [DecidableEq τ]

def new (clock : ι → ℤ) : TimerProcess ι τ :=
  ⟨.new, fun _ => none, fun loop => .new (clock loop)⟩

/-- `s_numCreated_.increment_and_get()` is `fetch`, and the `+ 1` of `construct`. -/
def step (s : TimerProcess ι τ) : TimerProcessOp ι τ → Except Abort (TimerProcess ι τ)
  | .fetch thread =>
    let (number, numCreated) := s.numCreated.getAndAdd 1
    .ok { s with
      numCreated := numCreated
      numbers := Function.update s.numbers thread (some number) }
  | .construct thread loop timer whenAt interval repeats =>
    match s.numbers thread with
    | none => .ok s
    | some number => .ok { s with
        numbers := Function.update s.numbers thread none
        queues := Function.update s.queues loop
          ((s.queues loop).newTimer timer (number + 1) whenAt interval repeats) }
  | .queue loop o => do
    let q ← (s.queues loop).step o
    return { s with queues := Function.update s.queues loop q }

/-- The allocator gives memory that no live timer of any loop has, the counter has not run
through all numbers, a thread constructs one timer at a time, and each loop's thread keeps to
its order. -/
def Allowed (s : TimerProcess ι τ) : TimerProcessOp ι τ → Prop
  | .fetch thread => s.numbers thread = none ∧ s.numCreated.value < 2 ^ 63 - 1
  | .construct _ _ timer _ _ _ => timer < uintptrMax ∧ ∀ loop, (s.queues loop).heap timer = none
  | .queue _ (.newTimer _ _ _ _ _) => False
  | .queue loop o => (s.queues loop).Allowed o

instance [Fintype ι] (s : TimerProcess ι τ) (o : TimerProcessOp ι τ) : Decidable (s.Allowed o) :=
  match o with
  | .fetch _ => inferInstanceAs (Decidable (_ ∧ _))
  | .construct _ _ _ _ _ _ => inferInstanceAs (Decidable (_ ∧ _))
  | .queue loop o => match o with
    | .newTimer _ _ _ _ _ => .isFalse id
    | .addTimerInLoop timer found => inferInstanceAs (Decidable ((s.queues loop).Allowed (.addTimerInLoop timer found)))
    | .cancelInLoop timerid => inferInstanceAs (Decidable ((s.queues loop).Allowed (.cancelInLoop timerid)))
    | .handleRead => inferInstanceAs (Decidable ((s.queues loop).Allowed .handleRead))
    | .runTimer => inferInstanceAs (Decidable ((s.queues loop).Allowed .runTimer))
    | .callbackReturns => inferInstanceAs (Decidable ((s.queues loop).Allowed .callbackReturns))
    | .endHandleRead => inferInstanceAs (Decidable ((s.queues loop).Allowed .endHandleRead))
    | .reset now => inferInstanceAs (Decidable ((s.queues loop).Allowed (.reset now)))
    | .setClock _ => .isTrue trivial

end TimerProcess

end Czy.Net
