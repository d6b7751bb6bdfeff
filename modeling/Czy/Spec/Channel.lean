import Czy.Spec.Fault

/-! net/channel.h and net/channel.cpp. The calls a channel makes on its loop are
left to the code that holds the channel; its callbacks act on a state that
contains the channel. -/

namespace Czy.Net

/-- An `int` of poll(2) event bits. -/
abbrev Mask := BitVec 32

def POLLIN : Mask := 0x1
def POLLPRI : Mask := 0x2
def POLLOUT : Mask := 0x4
def POLLERR : Mask := 0x8
def POLLHUP : Mask := 0x10
def POLLNVAL : Mask := 0x20
def POLLRDHUP : Mask := 0x2000

def Mask.test (m bits : Mask) : Bool := m &&& bits != 0

structure Channel where
  fd : ℕ
  events : Mask
  revents : Mask
  index : ℤ
  tied : Bool
  logHup : Bool
  eventHandling : Bool
  addToLoop : Bool
  deriving DecidableEq, Repr

namespace Channel

def KNoneEvent : Mask := 0
def KReadEvent : Mask := POLLIN ||| POLLPRI
def KWriteEvent : Mask := POLLOUT

/-- The constructor sets `index_` to 0, none of the values the poller knows. -/
def new (fd : ℕ) : Channel where
  fd := fd
  events := 0
  revents := 0
  index := 0
  tied := false
  logHup := true
  eventHandling := false
  addToLoop := false

def setRevents (c : Channel) (revt : Mask) : Channel := { c with revents := revt }

def setIndex (c : Channel) (index : ℤ) : Channel := { c with index := index }

/-- `isNoneEvent` looks at `revents_`. -/
def isNoneEvent (c : Channel) : Bool := c.revents == KNoneEvent

/-- `update` up to the call `loop_->updateChannel(this)`. -/
def update (c : Channel) : Channel := { c with addToLoop := true }

def enableReading (c : Channel) : Channel := update { c with events := c.events ||| KReadEvent }

def disableReading (c : Channel) : Channel := update { c with events := c.events &&& ~~~KReadEvent }

def enableWriting (c : Channel) : Channel := update { c with events := c.events ||| KWriteEvent }

def disableWriting (c : Channel) : Channel := update { c with events := c.events &&& ~~~KWriteEvent }

def disAbleAll (c : Channel) : Channel := update { c with events := KNoneEvent }

/-- `isWriting` tests the read bits. -/
def isWriting (c : Channel) : Bool := KReadEvent.test c.events

/-- `isReading` tests the write bit. -/
def isReading (c : Channel) : Bool := KWriteEvent.test c.events

def remove (c : Channel) : Except Fault Channel := do
  require (c.isNoneEvent = true) "isNoneEvent()"
  return { c with addToLoop := false }

def tie (c : Channel) : Channel := { c with tied := true }

/-- The `std::function` members; an empty one is `none`. -/
structure Callbacks (σ : Type) where
  read : Option (σ → Except Fault σ)
  write : Option (σ → Except Fault σ)
  close : Option (σ → Except Fault σ)
  error : Option (σ → Except Fault σ)

structure Holder (σ : Type) where
  get : σ → Channel
  set : σ → Channel → σ

variable {σ : Type}

def call (cb : Option (σ → Except Fault σ)) (s : σ) : Except Fault σ :=
  match cb with
  | some f => f s
  | none => .ok s

/-- `if (bits of revents_) { if (callback) callback(); }` -/
def callIf (c : Bool) (cb : Option (σ → Except Fault σ)) (s : σ) : Except Fault σ :=
  if c then call cb s else .ok s

/-- `POLLERR || POLLNVAL` is the number 1. -/
def errOrNval : Mask := if POLLERR ≠ 0 ∨ POLLNVAL ≠ 0 then 1 else 0

def handleEventWithGuard (h : Holder σ) (cbs : Callbacks σ) (s : σ) : Except Fault σ := do
  let s := h.set s { h.get s with eventHandling := true }
  let r := (h.get s).revents
  let s ← callIf (r.test POLLHUP && !r.test POLLIN) cbs.close s
  let s ← callIf ((h.get s).revents.test errOrNval) cbs.error s
  let s ← callIf ((h.get s).revents.test (POLLIN ||| POLLPRI ||| POLLRDHUP)) cbs.read s
  let s ← callIf ((h.get s).revents.test POLLOUT) cbs.write s
  return h.set s { h.get s with eventHandling := false }

/-- `alive` is whether `tie_.lock()` finds the owner. -/
def handleEvent (h : Holder σ) (cbs : Callbacks σ) (alive : Bool) (s : σ) : Except Fault σ :=
  if (h.get s).tied then
    if alive then handleEventWithGuard h cbs s else .ok s
  else handleEventWithGuard h cbs s

end Channel

end Czy.Net
