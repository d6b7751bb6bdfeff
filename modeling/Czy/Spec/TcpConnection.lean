import Czy.Spec.Buffer
import Czy.Spec.Channel

/-! net/tcp_connection.h and net/tcp_connection.cpp. What a connection does to
its surroundings is recorded in `effects`; the calls of its channel on the
loop are effects too, their outcome is the poller's part. The functors it
queues in its loop are kept here, apart from those of other objects.

What comes from outside is an argument: the results of the system calls, and
what a user callback does, which is a list of calls on the connection. -/

namespace Czy.Net

inductive StateE
  | KDisconnected | KConnecting | KConnected | KDisConnecting
  deriving DecidableEq, Repr

/-- The number of the enumerator. -/
def StateE.toInt : StateE → ℤ
  | .KDisconnected => 0
  | .KConnecting => 1
  | .KConnected => 2
  | .KDisConnecting => 3

/-- What a `sockets::write` did: an errno, or how many of the bytes it took. -/
abbrev WriteResult := Except ℤ ℕ

def EWOULDBLOCK : ℤ := 11
def EPIPE : ℤ := 32
def ECONNRESET : ℤ := 104

/-- The kernel never takes more than it is offered. -/
def WriteResult.clamp (w : WriteResult) (offered : ℕ) : WriteResult := w.map (min · offered)

inductive Effect
  | setState (s : StateE)
  | updateChannel (events : Mask)
  | removeChannel
  | write (offered : List UInt8) (result : WriteResult)
  | shutdownWrite
  | connectionCallback (connected : Bool)
  | messageCallback
  | writeCompleteCallback
  | highWaterMarkCallback (len : ℕ)
  | closeCallback
  deriving DecidableEq

/-- What the connection binds and queues. `handleWrite` binds the data member
`&TcpConnection::writeCompleteCallback_`, whose call reads the member. -/
inductive Functor
  | sendInLoop (message : List UInt8)
  | shutdownInLoop
  | forceCloseInLoop
  | stopReadInLoop
  | writeCompleteCallback
  | writeCompleteMember
  | highWaterMarkCallback (len : ℕ)
  deriving DecidableEq, Repr

/-- The calls of the public interface. -/
inductive UserCall
  | send (message : List UInt8) (w : WriteResult)
  | shutdown
  | forceClose
  | forceCloseWithDealy
  | stopRead

/-- Of the callbacks only those are optional that the code tests before a call. -/
structure TcpConnection where
  state : StateE
  reading : Bool
  channel : Channel
  highWaterMark : ℕ
  hasWriteComplete : Bool
  hasHighWaterMark : Bool
  inputBuffer : Buffer
  outputBuffer : Buffer
  pendingFunctors : List Functor
  timers : ℕ
  effects : List Effect

namespace TcpConnection

def new (sockfd : ℕ) : TcpConnection where
  state := .KConnecting
  reading := true
  channel := Channel.new sockfd
  highWaterMark := 64 * 1024 * 1024
  hasWriteComplete := false
  hasHighWaterMark := false
  inputBuffer := Buffer.new Buffer.kInittialSize
  outputBuffer := Buffer.new Buffer.kInittialSize
  pendingFunctors := []
  timers := 0
  effects := []

/-- The connection that `TcpServer::newConnection` and `TcpClient::newConnection` make:
they hand on their callbacks, of which the one for completed writes may be empty. -/
def created (sockfd : ℕ) (writeCompleteCallback : Bool) : TcpConnection :=
  { new sockfd with hasWriteComplete := writeCompleteCallback }

variable (c : TcpConnection)

def emit (e : Effect) : TcpConnection := { c with effects := c.effects ++ [e] }

def queueInLoop (f : Functor) : TcpConnection :=
  { c with pendingFunctors := c.pendingFunctors ++ [f] }

def setState (s : StateE) : TcpConnection := { c.emit (.setState s) with state := s }

/-- A change of the channel, and its `loop_->updateChannel`. -/
def updateChannel (change : Channel → Channel) : TcpConnection :=
  { c.emit (.updateChannel (change c.channel).events) with channel := change c.channel }

def connected : Bool := c.state = .KConnected

def write (offered : List UInt8) (w : WriteResult) : TcpConnection :=
  c.emit (.write offered (w.clamp offered.length))

/-- The direct write of `sendInLoop`: `nwrote` and `faultError` after it. -/
def writeDirectly (message : List UInt8) (w : WriteResult) : TcpConnection × ℕ × Bool :=
  let c := c.write message w
  match w.clamp message.length with
  | .ok nwrote =>
    if message.length - nwrote = 0 ∧ c.hasWriteComplete then
      (c.queueInLoop .writeCompleteCallback, nwrote, false)
    else (c, nwrote, false)
  | .error errno => (c, 0, errno ≠ EWOULDBLOCK ∧ (errno = EPIPE ∨ errno = ECONNRESET))

def noteHighWaterMark (remaining : ℕ) : TcpConnection :=
  let oldLen := c.outputBuffer.readableBytes
  if c.highWaterMark ≤ sizeT (oldLen + remaining) ∧ oldLen < c.highWaterMark ∧ c.hasHighWaterMark then
    c.queueInLoop (.highWaterMarkCallback (sizeT (oldLen + remaining)))
  else c

def bufferRemaining (rest : List UInt8) : Except Fault TcpConnection := do
  let c := c.noteHighWaterMark rest.length
  let buf ← c.outputBuffer.append rest
  let c := { c with outputBuffer := buf }
  return if c.channel.isWriting then c else c.updateChannel .enableWriting

/-- Both overloads; the one on a StringPiece is declared and nowhere defined. -/
def sendInLoop (message : List UInt8) (w : WriteResult) : Except Fault TcpConnection := do
  if c.state = .KDisconnected then return c
  let (c, nwrote, faultError) :=
    if !c.channel.isWriting ∧ c.outputBuffer.readableBytes = 0 then c.writeDirectly message w
    else (c, 0, false)
  let remaining := message.length - nwrote
  require (remaining ≤ message.length) "remaining <= len"
  if !faultError ∧ 0 < remaining then c.bufferRemaining (message.drop nwrote) else return c

/-- `loop_->runInLoop`: at once on the loop's own thread. -/
def runInLoop (inLoop : Bool) (f : Functor) (now : Except Fault TcpConnection) :
    Except Fault TcpConnection :=
  if inLoop then now else .ok (c.queueInLoop f)

/-- The three overloads of `send` hand over bytes in the same way. -/
def send (inLoop : Bool) (message : List UInt8) (w : WriteResult) : Except Fault TcpConnection :=
  if c.state = .KConnected then c.runInLoop inLoop (.sendInLoop message) (c.sendInLoop message w)
  else .ok c

def shutdownInLoop : TcpConnection :=
  if c.channel.isWriting then c else c.emit .shutdownWrite

def shutdown (inLoop : Bool) : Except Fault TcpConnection :=
  if c.state = .KConnected then
    let c := c.setState .KDisConnecting
    c.runInLoop inLoop .shutdownInLoop (.ok c.shutdownInLoop)
  else .ok c

def forceClose : TcpConnection :=
  if c.state = .KConnected ∨ c.state = .KDisConnecting then
    (c.setState .KDisConnecting).queueInLoop .forceCloseInLoop
  else c

/-- `loop_->runAfter` of a weak callback to `forceClose`. -/
def forceCloseWithDealy : TcpConnection :=
  if c.state = .KConnected ∨ c.state = .KDisConnecting then
    { c.setState .KDisConnecting with timers := c.timers + 1 }
  else c

def startReadInLoop : TcpConnection :=
  if !c.reading ∨ !c.channel.isReading then
    { c.updateChannel .enableReading with reading := true }
  else c

/-- `reading_ - true` computes a value and drops it. -/
def stopReadInLoop : TcpConnection :=
  if c.reading ∨ c.channel.isReading then c.updateChannel .disableReading else c

def stopRead (inLoop : Bool) : Except Fault TcpConnection :=
  c.runInLoop inLoop .stopReadInLoop (.ok c.stopReadInLoop)

/-- A call on the connection, from its loop's thread or from another. -/
def call (inLoop : Bool) : UserCall → Except Fault TcpConnection
  | .send message w => c.send inLoop message w
  | .shutdown => c.shutdown inLoop
  | .forceClose => .ok c.forceClose
  | .forceCloseWithDealy => .ok c.forceCloseWithDealy
  | .stopRead => c.stopRead inLoop

/-- The body of a user callback. -/
def userCallback (calls : List UserCall) : Except Fault TcpConnection :=
  calls.foldlM (fun c u => c.call true u) c

def connectionCallback (calls : List UserCall) : Except Fault TcpConnection :=
  (c.emit (.connectionCallback c.connected)).userCallback calls

/-- The assertion assigns: `assert(state_ = KConnecting)`. -/
def connectEstablished : Except Fault TcpConnection := do
  let c := c.setState .KConnecting
  require (c.state.toInt ≠ 0) "state_ = KConnecting"
  let c := c.setState .KConnected
  return { c with channel := c.channel.tie }

/-- `channel_->remove()`, and its `loop_->removeChannel`. -/
def removeChannel : Except Fault TcpConnection := do
  let ch ← c.channel.remove
  return { c.emit .removeChannel with channel := ch }

def connectDestory (calls : List UserCall) : Except Fault TcpConnection :=
  if c.state = .KConnected then do
    let c ← ((c.setState .KDisconnected).updateChannel .disAbleAll).connectionCallback calls
    c.removeChannel
  else c.removeChannel

/-- The assertion holds whatever the state: `KDisConnecting` alone is true. -/
def handleClose (calls : List UserCall) : Except Fault TcpConnection := do
  require (c.state = .KConnected ∨ StateE.KDisConnecting.toInt ≠ 0)
    "state_ == KConnected || KDisConnecting"
  let c := (c.setState .KDisconnected).updateChannel .disAbleAll
  let c ← c.connectionCallback calls
  return c.emit .closeCallback

def forceCloseInLoop (calls : List UserCall) : Except Fault TcpConnection :=
  if c.state = .KConnected ∨ c.state = .KDisConnecting then c.handleClose calls else .ok c

/-- `handleError` reads SO_ERROR and logs it. -/
def handleError : TcpConnection := c

/-- `r` is what `readv` did. -/
def handleRead (r : Except ℤ (List UInt8)) (calls : List UserCall) : Except Fault TcpConnection := do
  let (buf, n, _) ← c.inputBuffer.readFd r 0
  let c := { c with inputBuffer := buf }
  if 0 < n then (c.emit .messageCallback).userCallback calls
  else if n = 0 then c.handleClose calls
  else return c.handleError

/-- After the write in `handleWrite`: `outputBuffer_` has been drained. -/
def writeDrained : TcpConnection :=
  let c := c.updateChannel .disableWriting
  let c := if c.hasWriteComplete then c.queueInLoop .writeCompleteMember else c
  if c.state = .KDisConnecting then c.shutdownInLoop else c

def handleWrite (w : WriteResult) : Except Fault TcpConnection :=
  if c.channel.isWriting then
    let c := c.write c.outputBuffer.readable w
    match w.clamp c.outputBuffer.readable.length with
    | .ok n =>
      if 0 < n then do
        let buf ← c.outputBuffer.retrive n
        let c := { c with outputBuffer := buf }
        return if c.outputBuffer.readableBytes = 0 then c.writeDrained else c
      else .ok c
    | .error _ => .ok c
  else .ok c

def runFunctor (f : Functor) (w : WriteResult) (calls : List UserCall) : Except Fault TcpConnection :=
  match f with
  | .sendInLoop message => c.sendInLoop message w
  | .shutdownInLoop => .ok c.shutdownInLoop
  | .forceCloseInLoop => c.forceCloseInLoop calls
  | .stopReadInLoop => .ok c.stopReadInLoop
  | .writeCompleteCallback => (c.emit .writeCompleteCallback).userCallback calls
  | .writeCompleteMember => .ok c
  | .highWaterMarkCallback len => (c.emit (.highWaterMarkCallback len)).userCallback calls

def runPending (w : WriteResult) (calls : List UserCall) : Except Fault TcpConnection :=
  match c.pendingFunctors with
  | [] => .ok c
  | f :: fs => { c with pendingFunctors := fs }.runFunctor f w calls

/-- A timer of `forceCloseWithDealy` fires; `alive` is whether the weak pointer
still finds the connection. -/
def timerExpired (alive : Bool) : TcpConnection :=
  if c.timers = 0 then c
  else
    let c := { c with timers := c.timers - 1 }
    if alive then c.forceClose else c

def holder : Channel.Holder TcpConnection := ⟨channel, fun c ch => { c with channel := ch }⟩

/-- What one dispatch of the channel meets: the results of its system calls, and
what the user's callbacks do when they are called on a hang-up and on a read. -/
structure Dispatch where
  revents : Mask
  alive : Bool
  read : Except ℤ (List UInt8)
  write : WriteResult
  onHup : List UserCall
  onRead : List UserCall

def callbacks (d : Dispatch) : Channel.Callbacks TcpConnection where
  read := some (·.handleRead d.read d.onRead)
  write := some (·.handleWrite d.write)
  close := some (·.handleClose d.onHup)
  error := some (fun c => .ok c.handleError)

/-- The poller has set `revents_`, the loop calls `handleEvent`. -/
def handleEvent (d : Dispatch) : Except Fault TcpConnection :=
  Channel.handleEvent holder (callbacks d) d.alive { c with channel := c.channel.setRevents d.revents }

def sentBytes : List Effect → List UInt8
  | [] => []
  | .write offered (.ok n) :: es => offered.take n ++ sentBytes es
  | _ :: es => sentBytes es

end TcpConnection

/-- What its server or client, its loop and its user do with one connection. -/
inductive ConnOp
  | connectEstablished
  | handleEvent (d : TcpConnection.Dispatch)
  | call (inLoop : Bool) (u : UserCall)
  | runPending (w : WriteResult) (calls : List UserCall)
  | timerExpired (alive : Bool)
  | connectDestory (calls : List UserCall)

def ConnOp.step (c : TcpConnection) : ConnOp → Except Fault TcpConnection
  | connectEstablished => c.connectEstablished
  | handleEvent d => c.handleEvent d
  | call inLoop u => c.call inLoop u
  | runPending w calls => c.runPending w calls
  | timerExpired alive => .ok (c.timerExpired alive)
  | connectDestory calls => c.connectDestory calls

end Czy.Net
