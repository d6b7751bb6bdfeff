import Czy.Spec.Fault
import Mathlib.Data.List.Basic

/-! net/connector.cpp: the connector of a client. Sockets are numbered in the order in which
they are made, and where each one went is kept. What `connect` and `SO_ERROR` give is part of
the operation that asks for it; the user's callback is not modelled beyond its argument. -/

namespace Czy.Net

/-- The values of `errno` that `Connector::connect` distinguishes. -/
inductive Errno
  | EINPROGRESS | EINTR | EISCONN
  | EAGAIN | EADDRINUSE | EADDRNOTAVAIL | ECONNREFUSED | ENETUNREACH
  | EACCES | EPERM | EAFNOSUPPORT | EALREADY | EBADF | EFAULT | ENOTSOCK
  | unexpected (n : ℕ)
  deriving DecidableEq, Repr

inductive ConnectorState
  | KDisconnected | KConnecting | KConnected
  deriving DecidableEq, Repr

/-- What is queued in the loop. `stopInLoop` is declared and nowhere defined. -/
inductive ConnectorFunctor
  | startInLoop | stopInLoop | resetChannel
  deriving DecidableEq, Repr

/-- `*channel_`; it was taken out of the loop once it is `removed`. -/
structure ConnectorChannel where
  fd : ℕ
  writing : Bool
  removed : Bool
  deriving DecidableEq, Repr

structure Connector where
  connect_ : Bool
  state : ConnectorState
  channel : Option ConnectorChannel
  retryDelayMs : ℕ
  functors : List ConnectorFunctor
  /-- The delays of the timers that have not fired. -/
  timers : List ℕ
  /-- The number of sockets made. -/
  created : ℕ
  closed : List ℕ
  /-- Given to `newConnectionCallback_`. -/
  passed : List ℕ
  deriving DecidableEq, Repr

namespace Connector

def KMaxRetryDelayMs : ℕ := 30 * 1000

def KInitRetryDelayMs : ℕ := 500

def new : Connector := ⟨false, .KDisconnected, none, KInitRetryDelayMs, [], [], 0, [], []⟩

def setState (c : Connector) (state : ConnectorState) : Connector := { c with state := state }

def queueInLoop (c : Connector) (f : ConnectorFunctor) : Connector :=
  { c with functors := c.functors ++ [f] }

def close (c : Connector) (sockfd : ℕ) : Connector := { c with closed := c.closed ++ [sockfd] }

def retry (c : Connector) (sockfd : ℕ) : Connector :=
  let c := (c.close sockfd).setState .KDisconnected
  if c.connect_ then
    { c with
      timers := c.timers ++ [c.retryDelayMs]
      retryDelayMs := min (c.retryDelayMs * 2) KMaxRetryDelayMs }
  else c

def connecting (c : Connector) (_sockfd : ℕ) : Except Abort Connector := do
  let c := c.setState .KConnecting
  check (c.channel = none) "!channel_"
  let channel ← deref c.channel "channel_"
  return { c with channel := some { channel with writing := true } }

/-- The outcome is `none` where `::connect` returns 0. -/
def connect (c : Connector) (outcome : Option Errno) : Except Abort Connector :=
  let sockfd := c.created
  let c := { c with created := c.created + 1 }
  match outcome with
  | none | some .EINPROGRESS | some .EINTR | some .EISCONN => c.connecting sockfd
  | some .EAGAIN | some .EADDRINUSE | some .EADDRNOTAVAIL | some .ECONNREFUSED
  | some .ENETUNREACH => .ok (c.retry sockfd)
  | some .EACCES | some .EPERM | some .EAFNOSUPPORT | some .EALREADY | some .EBADF
  | some .EFAULT | some .ENOTSOCK => .ok (c.close sockfd)
  | some (.unexpected _) => .ok (c.close sockfd)

def startInLoop (c : Connector) (outcome : Option Errno) : Except Abort Connector := do
  check (c.state = .KDisconnected) "state_ == KDisconnected"
  if c.connect_ then c.connect outcome else return c

/-- `start`, called in the loop's thread or in another. -/
def start (c : Connector) (inLoopThread : Bool) (outcome : Option Errno) :
    Except Abort Connector :=
  let c := { c with connect_ := true }
  if inLoopThread then c.startInLoop outcome else .ok (c.queueInLoop .startInLoop)

def stop (c : Connector) : Connector := { c with connect_ := false }.queueInLoop .stopInLoop

def restart (c : Connector) (outcome : Option Errno) : Except Abort Connector :=
  { c.setState .KDisconnected with
    retryDelayMs := KInitRetryDelayMs
    connect_ := true }.startInLoop outcome

def removeAndReserChannel (c : Connector) : Except Abort (ℕ × Connector) := do
  let channel ← deref c.channel "channel_"
  let c := { c with channel := some { channel with writing := false, removed := true } }
  return (channel.fd, c.queueInLoop .resetChannel)

def resetChannel (c : Connector) : Connector := { c with channel := none }

def handleWrite (c : Connector) (soError : ℤ) : Except Abort Connector := do
  if c.state = .KConnecting then
    let (sockfd, c) ← c.removeAndReserChannel
    if soError ≠ 0 then
      return c.retry sockfd
    else
      let c := c.setState .KConnected
      if c.connect_ then return { c with passed := c.passed ++ [sockfd] }
      else return c.close sockfd
  else
    check (c.state = .KDisconnected) "state_ == KDisconnected"
    return c

def handleEror (c : Connector) (_soError : ℤ) : Except Abort Connector := do
  if c.state = .KConnecting then
    let (sockfd, c) ← c.removeAndReserChannel
    return c.retry sockfd
  else return c

inductive Operation
  | start (inLoopThread : Bool) (outcome : Option Errno)
  | stop
  | restart (outcome : Option Errno)
  | functor (i : ℕ) (outcome : Option Errno)
  | timer (i : ℕ) (outcome : Option Errno)
  | writeEvent (soError : ℤ)
  | errorEvent (soError : ℤ)
  deriving DecidableEq, Repr

def registered (c : Connector) : Bool := c.channel.any fun channel => !channel.removed

/-- What cannot happen in a state leaves it as it is. -/
def step (c : Connector) : Operation → Except Abort Connector
  | .start inLoopThread outcome => c.start inLoopThread outcome
  | .stop => .ok c.stop
  | .restart outcome => c.restart outcome
  | .functor i outcome =>
    match c.functors[i]? with
    | some .startInLoop => { c with functors := c.functors.eraseIdx i }.startInLoop outcome
    | some .resetChannel => .ok { c with functors := c.functors.eraseIdx i }.resetChannel
    | some .stopInLoop | none => .ok c
  | .timer i outcome =>
    if i < c.timers.length then { c with timers := c.timers.eraseIdx i }.startInLoop outcome
    else .ok c
  | .writeEvent soError => if c.registered then c.handleWrite soError else .ok c
  | .errorEvent soError => if c.registered then c.handleEror soError else .ok c

end Connector

end Czy.Net
