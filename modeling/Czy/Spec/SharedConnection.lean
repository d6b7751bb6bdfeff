import Czy.Spec.TcpConnection
import Mathlib.Data.Finset.Erase
import Mathlib.Data.Finset.Insert
import Mathlib.Data.Fintype.Defs

/-! Who holds a connection: the `TcpConnectionPtr`s to one connection of net/tcp_server.cpp and
net/tcp_connection.cpp, in the map of its server, in functors, and with the threads that use it.
What is bound with `this` holds it not, nor does a weak callback. A connection that nobody holds is
destroyed. The channel is left out, and `startRead`, whose functor never returns. -/

namespace Czy.Net

/-- The public calls that reach the loop of the connection. -/
inductive SharedCall
  | send | stopRead | shutdown | forceClose | forceCloseWithDealy
  deriving DecidableEq, Repr

/-- The functors of the connection in the queue of its loop; those bound with `this` are named
by the thread that queued them. -/
inductive BoundFunctor (τ : Type)
  | connectEstablished
  | sendInLoop (t : τ)
  | stopReadInLoop (t : τ)
  | shutdownInLoop
  | forceCloseInLoop
  | writeCompleteCallback
  | connectDestory
  deriving DecidableEq, Repr

/-- The thread, if it is bound with `this`. -/
def BoundFunctor.boundBy {τ : Type} : BoundFunctor τ → Option τ
  | .sendInLoop t | .stopReadInLoop t => some t
  | _ => none

inductive CallPlace
  | out
  | tested (c : SharedCall)
  | marked (c : SharedCall)
  deriving DecidableEq, Repr

/-- The next thing that the thread does is `setState(KDisConnecting)`. -/
def CallPlace.sets : CallPlace → Bool
  | .tested .shutdown | .tested .forceClose | .tested .forceCloseWithDealy => true
  | _ => false

/-- `ran` and `functors` are the vector of `doPendingFunctors`, which keeps those that have been
called. `removals` counts the `removeConnectionInLoop` in the queue of the server's loop, and
`removed` those that its vector keeps. `closes` counts the calls of `closeCallback_`. -/
structure SharedConnection (τ : Type) where
  ioIsBase : Bool
  state : StateE
  inMap : Bool
  holders : Finset τ
  calls : τ → CallPlace
  pendingFunctors : List (BoundFunctor τ)
  ran : List (BoundFunctor τ)
  functors : List (BoundFunctor τ)
  removals : ℕ
  removed : ℕ
  timers : ℕ
  closes : ℕ

namespace SharedConnection

variable {τ : Type}

def queueInLoop (s : SharedConnection τ) (f : BoundFunctor τ) : SharedConnection τ :=
  { s with pendingFunctors := s.pendingFunctors ++ [f] }

/-- `newConnection`: the functor that it binds has run at once where the loop is the server's. -/
def new (ioIsBase : Bool) : SharedConnection τ where
  ioIsBase := ioIsBase
  state := if ioIsBase then .KConnected else .KConnecting
  inMap := true
  holders := ∅
  calls := fun _ => .out
  pendingFunctors := if ioIsBase then [] else [.connectEstablished]
  ran := []
  functors := []
  removals := 0
  removed := 0
  timers := 0
  closes := 0

/-- Some `TcpConnectionPtr` is left. -/
def Held (s : SharedConnection τ) : Prop :=
  s.inMap = true ∨ s.holders.Nonempty ∨
    (∃ f ∈ s.ran ++ (s.functors ++ s.pendingFunctors), f.boundBy = none) ∨ 0 < s.removals + s.removed

instance (s : SharedConnection τ) : Decidable s.Held :=
  inferInstanceAs (Decidable (_ ∨ _ ∨ _ ∨ _))

/-- `TcpServer::removeConnectionInLoop`. -/
def removeConnectionInLoop (s : SharedConnection τ) : Except Abort (SharedConnection τ) := do
  check (s.inMap = true) "n == 1"
  return { s with inMap := false }.queueInLoop .connectDestory

def removeConnection (s : SharedConnection τ) : Except Abort (SharedConnection τ) :=
  if s.ioIsBase then s.removeConnectionInLoop else .ok { s with removals := s.removals + 1 }

def handleClose (s : SharedConnection τ) : Except Abort (SharedConnection τ) :=
  { s with state := .KDisconnected, closes := s.closes + 1 }.removeConnection

/-- The test of `state_` with which a call begins. -/
def passes (s : SharedConnection τ) : SharedCall → Bool
  | .send | .shutdown => s.state = .KConnected
  | .stopRead => true
  | .forceClose | .forceCloseWithDealy => s.state = .KConnected ∨ s.state = .KDisConnecting

/-- A call on the connection's own loop. -/
def callInLoop (s : SharedConnection τ) (c : SharedCall) : SharedConnection τ :=
  if s.passes c then
    match c with
    | .send | .stopRead => s
    | .shutdown => { s with state := .KDisConnecting }
    | .forceClose => { s with state := .KDisConnecting }.queueInLoop .forceCloseInLoop
    | .forceCloseWithDealy => { s with state := .KDisConnecting, timers := s.timers + 1 }
  else s

section

variable [DecidableEq τ]

def setCall (s : SharedConnection τ) (t : τ) (place : CallPlace) : SharedConnection τ :=
  { s with calls := Function.update s.calls t place }

/-- A call of another thread, which has a pointer, begins. -/
def call (s : SharedConnection τ) (t : τ) (c : SharedCall) : SharedConnection τ :=
  if t ∈ s.holders ∧ s.calls t = .out ∧ s.passes c then s.setCall t (.tested c) else s

def proceed (s : SharedConnection τ) (t : τ) : SharedConnection τ :=
  match s.calls t with
  | .out => s
  | .tested .send => (s.queueInLoop (.sendInLoop t)).setCall t .out
  | .tested .stopRead => (s.queueInLoop (.stopReadInLoop t)).setCall t .out
  | .tested c => { s with state := .KDisConnecting }.setCall t (.marked c)
  | .marked .shutdown => (s.queueInLoop .shutdownInLoop).setCall t .out
  | .marked .forceClose => (s.queueInLoop .forceCloseInLoop).setCall t .out
  | .marked .forceCloseWithDealy => { s with timers := s.timers + 1 }.setCall t .out
  | .marked _ => s.setCall t .out

end

def runFunctor (s : SharedConnection τ) : Except Abort (SharedConnection τ) :=
  match s.functors with
  | [] => .ok s
  | f :: functors =>
    let s := { s with ran := s.ran ++ [f], functors := functors }
    match f with
    | .connectEstablished => .ok { s with state := .KConnected }
    | .sendInLoop _ | .stopReadInLoop _ => if s.Held then .ok s else .error (.badPointer "this")
    | .shutdownInLoop | .writeCompleteCallback => .ok s
    | .forceCloseInLoop =>
      if s.state = .KConnected ∨ s.state = .KDisConnecting then s.handleClose else .ok s
    | .connectDestory => .ok (if s.state = .KConnected then { s with state := .KDisconnected } else s)

/-- The timer of `forceCloseWithDealy`, whose callback is weak. -/
def timerExpired (s : SharedConnection τ) : SharedConnection τ :=
  if s.timers = 0 then s
  else
    let s := { s with timers := s.timers - 1 }
    if s.Held then s.callInLoop .forceClose else s

/-- What can happen next: a thread takes a pointer from one that is there, or gives its own up;
calls; and the steps of the two loops. An event comes to the connection through its weak `tie_`,
and `closes` where it calls `handleClose`. -/
inductive Operation (τ : Type)
  | obtain (t : τ)
  | drop (t : τ)
  | call (t : τ) (c : SharedCall)
  | proceed (t : τ)
  | callInLoop (c : SharedCall)
  | queueCallback
  | handleEvent (closes : Bool)
  | timer
  | swap
  | runFunctor
  | endPendingFunctors
  | removeConnectionInLoop
  | releaseRemovals
  deriving DecidableEq, Repr

/-- What cannot happen in a state leaves it as it is. -/
def act [DecidableEq τ] (s : SharedConnection τ) : Operation τ → Except Abort (SharedConnection τ)
  | .obtain t => .ok (if s.Held then { s with holders := insert t s.holders } else s)
  | .drop t => .ok (if s.calls t = .out then { s with holders := s.holders.erase t } else s)
  | .call t c => .ok (s.call t c)
  | .proceed t => .ok (s.proceed t)
  | .callInLoop c => .ok (if s.Held then s.callInLoop c else s)
  | .queueCallback => .ok (if s.Held then s.queueInLoop .writeCompleteCallback else s)
  | .handleEvent closes =>
    if closes = true ∧ s.Held ∧ s.ran ++ s.functors = [] then s.handleClose else .ok s
  | .timer => .ok s.timerExpired
  | .swap => .ok (if s.ran ++ s.functors = [] then
      { s with functors := s.pendingFunctors, pendingFunctors := [] } else s)
  | .runFunctor => s.runFunctor
  | .endPendingFunctors => .ok (if s.functors = [] then { s with ran := [] } else s)
  | .removeConnectionInLoop =>
    if s.removals = 0 then .ok s
    else { s with removals := s.removals - 1, removed := s.removed + 1 }.removeConnectionInLoop
  | .releaseRemovals => .ok { s with removed := 0 }

/-- With the last pointer the destructor runs. -/
def step [DecidableEq τ] (s : SharedConnection τ) (o : Operation τ) :
    Except Abort (SharedConnection τ) := do
  let s' ← s.act o
  check (s.Held → ¬ s'.Held → s'.state = .KDisconnected) "state_ == KDisconnected"
  return s'

/-- No thread is between its test of `state_` and its `setState`. -/
def Settled (s : SharedConnection τ) : Prop := ∀ t, (s.calls t).sets = false

instance [Fintype τ] (s : SharedConnection τ) : Decidable s.Settled :=
  inferInstanceAs (Decidable (∀ _, _ = _))

/-- The connection is closed while it is up and no thread is about to set its state, and a thread
gives up its pointer once what it has bound with `this` has run, or before the server's map lets
the connection go. -/
def Allowed (s : SharedConnection τ) : Operation τ → Prop
  | .handleEvent true => (s.state = .KConnected ∨ s.state = .KDisConnecting) ∧ s.Settled
  | .runFunctor => s.functors.head? = some .forceCloseInLoop →
      s.state = .KConnected ∨ s.state = .KDisConnecting → s.Settled
  | .drop t => s.inMap = true ∨ ∀ f ∈ s.functors ++ s.pendingFunctors, f.boundBy ≠ some t
  | _ => True

instance [Fintype τ] [DecidableEq τ] (s : SharedConnection τ) (o : Operation τ) :
    Decidable (s.Allowed o) :=
  match o with
  | .handleEvent true => inferInstanceAs (Decidable (_ ∧ _))
  | .runFunctor => inferInstanceAs (Decidable (_ → _ → _))
  | .drop _ => inferInstanceAs (Decidable (_ ∨ _))
  | .handleEvent false | .obtain _ | .call _ _ | .proceed _ | .callInLoop _ | .queueCallback | .timer
  | .swap | .endPendingFunctors | .removeConnectionInLoop | .releaseRemovals => .isTrue trivial

end SharedConnection

end Czy.Net
