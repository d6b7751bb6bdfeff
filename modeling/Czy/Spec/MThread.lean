import Czy.Spec.CountDownLatch
import Czy.Spec.Fault

/-! base/m_thread.cpp: `start` in the parent against `start_thread` in the child, cut into
steps where the other side can come in between. -/

namespace Czy

open Monitor

/-- What a thread function does in the end. -/
inductive ThreadEnd
  | returns | throws | runsOn
  deriving DecidableEq, Repr

inductive ThreadSide
  | parent | child
  deriving DecidableEq, Repr

instance : Fintype ThreadSide := ⟨{.parent, .child}, fun t => by cases t <;> decide⟩

inductive StartPhase
  | outside | atLatch | behindLatch | returned
  deriving DecidableEq, Repr

/-- Where the child is: not there, before or in `m_func()`, or behind `run_in_thread`. -/
inductive ChildPhase
  | absent | created | running | finished | aborted
  deriving DecidableEq, Repr

structure MThread where
  name : String
  started : Bool
  tid : ℤ
  latch : State ThreadSide Int32 LatchOp Unit
  parent : StartPhase
  child : ChildPhase
  /-- The child's `t_thread_name`. -/
  threadName : String

inductive ThreadStep
  | start (created : Bool)
  | latch (l : Label ThreadSide LatchOp)
  | leaveLatch
  | runInThread
  | endFunc

namespace MThread

/-- The default name has been set. -/
def new (name : String) : MThread := ⟨name, false, 0, .new 1, .outside, .absent, "unknown"⟩

/-- `start` up to what `pthread_create` gives. -/
def start (m : MThread) (created : Bool) : Except Abort MThread := do
  check (m.started = false) "!m_started"
  if created then return { m with started := true, parent := .atLatch, child := .created }
  else return { m with started := false, parent := .returned }

/-- The parent's steps in `m_latch.wait()`; the child calls nothing of the latch. -/
def ofWait : Label ThreadSide LatchOp → Bool
  | .call .parent .wait _ | .resume .parent _ | .spurious .parent => true
  | _ => false

def waitLatch (m : MThread) (l : Label ThreadSide LatchOp) : MThread :=
  match step CountDownLatch.body m.latch l with
  | .ok latch => { m with
      latch := latch
      parent := if latch.place .parent = .outside then .behindLatch else .atLatch }
  | .error _ => m

/-- The rest of `start`. -/
def leaveLatch (m : MThread) : Except Abort MThread := do
  check (m.tid > 0) "m_tid>0"
  return { m with parent := .returned }

def runInThread (m : MThread) : MThread :=
  { m with child := .running, threadName := if m.name.isEmpty then "unkonwn" else m.name }

/-- The rest of `run_in_thread` and of `start_thread`. -/
def endFunc (func : ThreadEnd) (m : MThread) : MThread :=
  match func with
  | .returns => { m with child := .finished, threadName := "finished" }
  | .throws => { m with child := .aborted, threadName := "crashed" }
  | .runsOn => m

/-- What is not the next step of its thread leaves the state as it is, and so does everything
after an `abort`. -/
def step (func : ThreadEnd) (m : MThread) (l : ThreadStep) : Except Abort MThread :=
  if m.child = .aborted then .ok m
  else match l with
    | .start created => if m.parent = .outside then m.start created else .ok m
    | .latch l => if m.parent = .atLatch ∧ ofWait l = true then .ok (m.waitLatch l) else .ok m
    | .leaveLatch => if m.parent = .behindLatch then m.leaveLatch else .ok m
    | .runInThread => if m.child = .created then .ok m.runInThread else .ok m
    | .endFunc => if m.child = .running then .ok (m.endFunc func) else .ok m

end MThread

end Czy
