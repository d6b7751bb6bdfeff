import Mathlib.Data.Nat.Notation
import Mathlib.Logic.Function.Basic

/-! net/event_loop.cpp: the body of the loop in `loop`, `queueInLoop`, `wakeup`,
`handleRead` and `doPendingFunctors`, cut into steps where other threads can come
in between. What channels and functors do is left open, except that on the
loop's thread only the callback of a channel or a functor calls `queueInLoop`. -/

namespace Czy.Net

/-- Where a thread is in a call of `queueInLoop`: outside, before the test, before
the write in `wakeup`. -/
inductive QueueCall
  | out | pushed | waking
  deriving DecidableEq, Repr

/-- An entry of `activeChannels_`. -/
inductive Active
  | wakeupChannel | channel
  deriving DecidableEq, Repr

/-- Where the loop's thread is: at or in `poll`, in the dispatch of the active
channels, in `doPendingFunctors` before the swap, behind it between functors or
in one. -/
inductive Position
  | poll
  | dispatch (rest : List Active)
  | swap
  | run (inFunctor : Bool)
  deriving DecidableEq, Repr

/-- φ are the functors, τ the other threads. `functors` is the local vector without
those already called. The last three fields are history. -/
structure EventLoop (φ τ : Type) where
  pendingFunctors : List φ
  callingPendingFunctors : Bool
  wakeupFd : ℕ
  functors : List φ
  position : Position
  call : QueueCall
  others : τ → QueueCall
  pushed : List φ
  executed : List φ
  atSwap : List φ

inductive LoopAction (φ τ : Type)
  | poll (activeChannels : List Active)
  | handleEvent
  | doPendingFunctors
  | swap
  | callFunctor
  | functorReturns
  | endPendingFunctors
  | push (f : φ)
  | test
  | wakeup
  | otherPush (t : τ) (f : φ)
  | otherTest (t : τ)
  | otherWakeup (t : τ)

namespace EventLoop

variable {φ τ : Type}

def new : EventLoop φ τ where
  pendingFunctors := []
  callingPendingFunctors := false
  wakeupFd := 0
  functors := []
  position := .poll
  call := .out
  others := fun _ => .out
  pushed := []
  executed := []
  atSwap := []

section

variable (l : EventLoop φ τ)

def pushBack (f : φ) : EventLoop φ τ :=
  { l with pendingFunctors := l.pendingFunctors ++ [f], pushed := l.pushed ++ [f] }

def mustWake (inLoopThread : Bool) : Bool := !inLoopThread || l.callingPendingFunctors

/-- `wakeup`: the write of 1 adds to the counter of the eventfd. -/
def wakeup : EventLoop φ τ := { l with wakeupFd := l.wakeupFd + 1 }

/-- `handleRead`: the read resets the counter. -/
def handleRead : EventLoop φ τ := { l with wakeupFd := 0 }

/-- Where the loop's thread may call `queueInLoop`. -/
def inCallback : Bool :=
  match l.position with
  | .dispatch (.channel :: _) | .run true => true
  | _ => false

end

def step [DecidableEq τ] (l : EventLoop φ τ) : LoopAction φ τ → Except Unit (EventLoop φ τ)
  | .poll activeChannels =>
    if l.position = .poll then .ok { l with position := .dispatch activeChannels } else .error ()
  | .handleEvent =>
    if l.call = .out then
      match l.position with
      | .dispatch (.wakeupChannel :: rest) => .ok { l.handleRead with position := .dispatch rest }
      | .dispatch (.channel :: rest) => .ok { l with position := .dispatch rest }
      | _ => .error ()
    else .error ()
  | .doPendingFunctors =>
    if l.position = .dispatch [] then
      .ok { l with callingPendingFunctors := true, position := .swap }
    else .error ()
  | .swap =>
    if l.position = .swap then
      .ok { l with functors := l.pendingFunctors, pendingFunctors := [], position := .run false,
                   atSwap := l.pushed }
    else .error ()
  | .callFunctor =>
    if l.position = .run false then
      match l.functors with
      | f :: fs => .ok { l with functors := fs, position := .run true, executed := l.executed ++ [f] }
      | [] => .error ()
    else .error ()
  | .functorReturns =>
    if l.position = .run true ∧ l.call = .out then .ok { l with position := .run false }
    else .error ()
  | .endPendingFunctors =>
    if l.position = .run false then
      match l.functors with
      | [] => .ok { l with callingPendingFunctors := false, position := .poll }
      | _ :: _ => .error ()
    else .error ()
  | .push f =>
    if l.inCallback ∧ l.call = .out then .ok { l.pushBack f with call := .pushed } else .error ()
  | .test =>
    if l.call = .pushed then .ok { l with call := if l.mustWake true then .waking else .out }
    else .error ()
  | .wakeup =>
    if l.call = .waking then .ok { l.wakeup with call := .out } else .error ()
  | .otherPush t f =>
    if l.others t = .out then
      .ok { l.pushBack f with others := Function.update l.others t .pushed }
    else .error ()
  | .otherTest t =>
    if l.others t = .pushed then
      .ok { l with others := Function.update l.others t (if l.mustWake false then .waking else .out) }
    else .error ()
  | .otherWakeup t =>
    if l.others t = .waking then
      .ok { l.wakeup with others := Function.update l.others t .out }
    else .error ()

end EventLoop

end Czy.Net
