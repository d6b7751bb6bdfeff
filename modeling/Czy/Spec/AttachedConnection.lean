import Czy.Lib.Run
import Czy.Spec.Poller
import Czy.Spec.TcpConnection

/-! A connection on the poller of its loop, on the loop's thread: `loop_->updateChannel` and
`loop_->removeChannel` of its channel are carried out as they are called. -/

namespace Czy.Net

/-- `ptr` names the channel. -/
structure AttachedConnection (ι : Type) where
  conn : TcpConnection
  poller : EPollPoller ι
  ptr : ι

namespace AttachedConnection

variable {ι : Type} [DecidableEq ι]

/-- The poller's part of an effect, which leaves `index_` in the channel. -/
def carryOut (ptr : ι) (s : EPollPoller ι × Channel) : Effect → Except Fault (EPollPoller ι × Channel)
  | .updateChannel events => s.1.updateChannel ptr { s.2 with events := events }
  | .removeChannel => s.1.removeChannel ptr s.2
  | .setState _ | .write _ _ | .shutdownWrite | .connectionCallback _ | .messageCallback
  | .writeCompleteCallback | .highWaterMarkCallback _ | .closeCallback => .ok s

/-- A call on the connection, with what it does to the poller. `revents_` changes before a
call does anything else. -/
def perform (s : AttachedConnection ι) (f : TcpConnection → Except Fault TcpConnection) :
    Except Fault (AttachedConnection ι) := do
  let c ← f s.conn
  let (p, ch) ← StepRun.run (carryOut s.ptr) (s.poller, c.channel.setIndex s.conn.channel.index)
    (c.effects.drop s.conn.effects.length)
  return { s with conn := { c with channel := c.channel.setIndex ch.index }, poller := p }

def connectDestory (s : AttachedConnection ι) (calls : List UserCall) :
    Except Fault (AttachedConnection ι) := s.perform (·.connectDestory calls)

def step (s : AttachedConnection ι) (o : ConnOp) : Except Fault (AttachedConnection ι) :=
  s.perform fun c => ConnOp.step c o

end AttachedConnection

end Czy.Net
