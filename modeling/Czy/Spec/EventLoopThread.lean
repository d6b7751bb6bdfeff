import Czy.Lib.Monitor
import Czy.Spec.Fault
import Czy.Spec.LoopQuit

/-! net/eventloop_thread.cpp: `startLoop` in the caller against `threadFunc` in the new
thread, whose `EventLoop` is the one of `loop` and `quit`. `MThread::start` is taken to return
with the thread made; what the callback does with the loop are steps of the loop. -/

namespace Czy.Net

open Monitor

inductive LoopThreadSide
  | caller | thread
  deriving DecidableEq, Repr

instance : Fintype LoopThreadSide := ⟨{.caller, .thread}, fun t => by cases t <;> decide⟩

/-- The sections under `mutex_`: of `startLoop`, and the two of `threadFunc`. -/
inductive LoopThreadOp
  | startLoop | publish | withdraw
  deriving DecidableEq, Repr

/-- Where the new thread is: not there, before the first section of `threadFunc`, in or before
`loop.loop()`, behind the second section, or behind the scope of `loop`. -/
inductive FuncPhase
  | absent | constructed | looping | withdrawn | ended
  deriving DecidableEq, Repr

/-- The monitor is around `loop_`, a pointer that is null or `&loop`; `result` is what
`startLoop` has returned. -/
structure EventLoopThread (φ τ : Type) where
  started : Bool
  monitor : State LoopThreadSide (Option Unit) LoopThreadOp Unit
  object : LoopState φ τ
  func : FuncPhase
  result : Option (Option Unit)

inductive LoopThreadStep (φ τ : Type)
  | start
  | wait (l : Label LoopThreadSide LoopThreadOp)
  | publish (woken : Option LoopThreadSide)
  | object (o : LoopOp φ τ)
  | withdraw
  | leaveScope

namespace EventLoopThread

variable {φ τ : Type}

def new : EventLoopThread φ τ := ⟨false, .new none, .new, .absent, none⟩

def body : LoopThreadOp → Option Unit → Outcome (Option Unit) Unit
  | .startLoop, none => .waits ()
  | .startLoop, some loop => .returns (some loop) .none
  | .publish, _ => .returns (some ()) (.one ())
  | .withdraw, _ => .returns none .none

def start (m : EventLoopThread φ τ) : Except Abort (EventLoopThread φ τ) := do
  check (m.started = false) "!thread_.started()"
  return { m with started := true, func := .constructed }

def ofCaller : Label LoopThreadSide LoopThreadOp → Bool
  | .call .caller .startLoop _ | .resume .caller _ | .spurious .caller => true
  | _ => false

/-- The caller's section, and what `startLoop` returns when it is done. -/
def wait (m : EventLoopThread φ τ) (l : Label LoopThreadSide LoopThreadOp) : EventLoopThread φ τ :=
  match step body m.monitor l with
  | .ok monitor => { m with
      monitor := monitor
      result := if monitor.place .caller = .outside then some monitor.shared else none }
  | .error _ => m

def enterSection (m : EventLoopThread φ τ) (op : LoopThreadOp) (woken : Option LoopThreadSide)
    (func : FuncPhase) : EventLoopThread φ τ :=
  match step body m.monitor (.call .thread op woken) with
  | .ok monitor => { m with monitor := monitor, func := func }
  | .error _ => m

def ofThread : LoopOp φ τ → Bool
  | .act a => LoopState.ofLoop a
  | .otherQuit _ => false
  | _ => true

def inScope (m : EventLoopThread φ τ) : Bool := m.func ≠ .absent ∧ m.func ≠ .ended

def runObject [DecidableEq τ] (m : EventLoopThread φ τ) (o : LoopOp φ τ) : EventLoopThread φ τ :=
  match m.object.step o with
  | .ok object => { m with object := object }
  | .error _ => m

/-- What is not the next step of its thread leaves the state as it is. The second section is
reached when `loop.loop()` has returned. -/
def step [DecidableEq τ] (m : EventLoopThread φ τ) :
    LoopThreadStep φ τ → Except Abort (EventLoopThread φ τ)
  | .start => m.start
  | .wait l => if m.started = true ∧ m.result = none ∧ ofCaller l = true then .ok (m.wait l) else .ok m
  | .publish woken =>
    if m.func = .constructed then .ok (m.enterSection .publish woken .looping) else .ok m
  | .object o =>
    if m.inScope = true ∧ (ofThread o = true → m.func = .looping) then .ok (m.runObject o) else .ok m
  | .withdraw =>
    if m.func = .looping ∧ m.object.phase = .returned then
      .ok (m.enterSection .withdraw none .withdrawn)
    else .ok m
  | .leaveScope => if m.func = .withdrawn then .ok { m with func := .ended } else .ok m

end EventLoopThread

end Czy.Net
