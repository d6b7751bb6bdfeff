import Czy.Spec.EventLoop

/-! net/event_loop.cpp: `loop` around its body and `quit`, cut into steps where other
threads can come in between. The steps of the body are those of the event loop. -/

namespace Czy.Net

/-- Where the loop's thread is: not in `loop`, before the test of the loop, in its body,
behind the loop, or returned. -/
inductive LoopPhase
  | outside | test | body | leaving | returned
  deriving DecidableEq, Repr

/-- `quits` counts the calls of `quit` that have set the flag, and `begunAfterQuit` the
iterations begun after one: both are history. -/
structure LoopState (φ τ : Type) where
  events : EventLoop φ τ
  looping : Bool
  quit : Bool
  iteration : ℕ
  phase : LoopPhase
  quits : ℕ
  begunAfterQuit : ℕ

/-- `act` is a step of the body or of another thread, and `loopAgain` a call of `loop` by
a callback. -/
inductive LoopOp (φ τ : Type)
  | loop
  | test
  | act (a : LoopAction φ τ)
  | loopAgain
  | leave
  | quit
  | otherQuit (t : τ)

namespace LoopState

variable {φ τ : Type}

def new : LoopState φ τ where
  events := .new
  looping := false
  quit := false
  iteration := 0
  phase := .outside
  quits := 0
  begunAfterQuit := 0

/-- `loop` up to its loop, on the loop's own thread. -/
def enter (l : LoopState φ τ) : Except Unit (LoopState φ τ) :=
  -- `assert(!looping_)`
  if l.looping then .error () else .ok { l with looping := false, quit := true, phase := .test }

def ofLoop : LoopAction φ τ → Bool
  | .otherPush _ _ | .otherTest _ | .otherWakeup _ => false
  | _ => true

def endsBody : LoopAction φ τ → Bool
  | .endPendingFunctors => true
  | _ => false

/-- A step of one thread, or an error where it is not the next one of the thread. -/
def step [DecidableEq τ] (l : LoopState φ τ) : LoopOp φ τ → Except Unit (LoopState φ τ)
  | .loop => if l.phase = .outside then l.enter else .error ()
  | .test =>
    if l.phase = .test then
      if l.quit then .ok { l with phase := .leaving }
      else .ok { l with phase := .body, iteration := l.iteration + 1
                        begunAfterQuit := l.begunAfterQuit + if l.quits = 0 then 0 else 1 }
    else .error ()
  | .act a =>
    if ofLoop a ∧ l.phase ≠ .body then .error ()
    else match l.events.step a with
      | .ok events => .ok { l with events := events, phase := if endsBody a then .test else l.phase }
      | .error e => .error e
  | .loopAgain =>
    -- where the assertion lets it in, it finds `quit_` set and returns
    if l.phase = .body ∧ l.events.inCallback ∧ ¬ l.looping then
      .ok { l with looping := false, quit := true }
    else .error ()
  | .leave => if l.phase = .leaving then .ok { l with looping := false, phase := .returned } else .error ()
  | .quit =>
    if l.phase = .body ∧ l.events.inCallback then .ok { l with quit := true, quits := l.quits + 1 }
    else .error ()
  | .otherQuit t =>
    -- the wake-up that follows is the next step of `t`
    if l.events.others t = .out then
      .ok { l with quit := true, quits := l.quits + 1
                   events := { l.events with others := Function.update l.events.others t .waking } }
    else .error ()

end LoopState

end Czy.Net
