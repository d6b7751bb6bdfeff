import Czy.Spec.Channel
import Mathlib.Logic.Function.Basic

/-! net/poller.h and net/epoll_poller.cpp, with the epoll instance behind
`epollfd_`. A `Channel *` is a name `ι`. -/

namespace Czy.Net

structure EpollEvent (ι : Type) where
  events : Mask
  ptr : ι
  deriving DecidableEq, Repr

inductive EpollOp
  | add | mod | del
  deriving DecidableEq, Repr

/-- `channels_`, and the interest list of the kernel. -/
structure EPollPoller (ι : Type) where
  channels : ℕ → Option ι
  kernel : ℕ → Option (EpollEvent ι)

namespace EPollPoller

def KNew : ℤ := -1
def KAdded : ℤ := 1
def KDeleted : ℤ := 2

variable {ι : Type}

def new : EPollPoller ι := ⟨fun _ => none, fun _ => none⟩

/-- `epoll_ctl`: `none` is EEXIST for an ADD, ENOENT for a MOD or a DEL. -/
def epollCtl (kernel : ℕ → Option (EpollEvent ι)) (op : EpollOp) (fd : ℕ) (event : EpollEvent ι) :
    Option (ℕ → Option (EpollEvent ι)) :=
  match op, kernel fd with
  | .add, none => some (Function.update kernel fd (some event))
  | .mod, some _ => some (Function.update kernel fd (some event))
  | .del, some _ => some (Function.update kernel fd none)
  | _, _ => none

/-- `update`: a failed DEL is logged, a failed ADD or MOD is fatal. -/
def update (p : EPollPoller ι) (op : EpollOp) (ptr : ι) (c : Channel) :
    Except Fault (EPollPoller ι) :=
  match epollCtl p.kernel op c.fd ⟨c.events, ptr⟩ with
  | some kernel => .ok { p with kernel := kernel }
  | none => if op = .del then .ok p else .error (.sysFatal "epoll_ctl")

variable [DecidableEq ι]

/-- The second assertion of the last branch is an assignment. -/
def updateChannel (p : EPollPoller ι) (ptr : ι) (c : Channel) :
    Except Fault (EPollPoller ι × Channel) := do
  let index := c.index
  if index = KNew ∨ index = KDeleted then
    let p ← if index = KNew then do
        require (p.channels c.fd = none) "channels_.find(fd) == channels_.end()"
        pure { p with channels := Function.update p.channels c.fd (some ptr) }
      else do
        require (p.channels c.fd ≠ none) "channels_.find(fd) != channels_.end()"
        require (p.channels c.fd = some ptr) "channels_[fd] == channel"
        pure p
    let c := c.setIndex KAdded
    let p ← p.update .add ptr c
    return (p, c)
  else
    require (p.channels c.fd ≠ none) "channels_.find(fd) != channels_.end()"
    let p := { p with channels := Function.update p.channels c.fd (some ptr) }
    require (index = KAdded) "index == KAdded"
    if c.isNoneEvent then
      let c := c.setIndex KDeleted
      let p ← p.update .del ptr c
      return (p, c)
    else
      let p ← p.update .mod ptr c
      return (p, c)

def removeChannel (p : EPollPoller ι) (ptr : ι) (c : Channel) :
    Except Fault (EPollPoller ι × Channel) := do
  require (p.channels c.fd ≠ none) "channels_.find(fd) != channels_.end()"
  let p := { p with channels := Function.update p.channels c.fd (some ptr) }
  require (c.isNoneEvent = true) "channel->isNoneEvent()"
  let index := c.index
  require (index = KAdded ∨ index = KDeleted) "index == KAdded || index == KDeleted"
  let n := if p.channels c.fd = none then 0 else 1
  let p := { p with channels := Function.update p.channels c.fd none }
  require (n = 1) "n == 1"
  let p ← if index = KAdded then p.update .del ptr c else pure p
  return (p, c.setIndex KNew)

end EPollPoller

end Czy.Net
