import Czy.Spec.Fault
import Mathlib.Data.List.Basic
import Mathlib.Logic.Function.Basic

/-! net/tcp_server.cpp and net/eventloop_threadpool.cpp. Each loop calls the functors
queued in it in order; of those only the server's are kept. The callbacks that the user
sets are no part of this. A character of a string stands for a byte. -/

namespace Czy.Net

/-- An `EventLoop *`, and its thread: 0 is the base loop, `i + 1` that of `threads_[i]`. -/
abbrev LoopId := ℕ

def baseLoop : LoopId := 0

/-- `assertInLoopThread` of a loop, called in the thread `t`. -/
def assertInLoopThread (t loop : LoopId) : Except Fault Unit :=
  if t = loop then .ok () else .error .notInLoopThread

/-- `next_` is an index of `loops_` once there is one. -/
structure EventLoopThreadPool where
  started : Bool
  numThreads : ℤ
  next : ℕ
  loops : List LoopId
  next_lt : next = 0 ∨ next < loops.length

namespace EventLoopThreadPool

def new : EventLoopThreadPool := ⟨false, 0, 0, [], Or.inl rfl⟩

def setThreadNum (p : EventLoopThreadPool) (numThreads : ℤ) : EventLoopThreadPool :=
  { p with numThreads := numThreads }

/-- `start`. The `i`-th `startLoop` is taken to return the loop of `threads_[i]`, although
`MThread::start`, which it calls, stays in its latch. -/
def start (p : EventLoopThreadPool) (t : LoopId) : Except Fault EventLoopThreadPool := do
  require (p.started = false) "!started_"
  assertInLoopThread t baseLoop
  .ok { p with
    started := true
    loops := p.loops ++ (List.range p.numThreads.toNat).map (· + 1)
    next_lt := p.next_lt.imp_right fun h => by rw [List.length_append]; exact Nat.lt_add_right _ h }

theorem next_lt_length (p : EventLoopThreadPool) (h : p.loops ≠ []) : p.next < p.loops.length :=
  p.next_lt.elim (fun h0 => h0 ▸ List.length_pos_iff.2 h) id

def getNextLoop (p : EventLoopThreadPool) (t : LoopId) :
    Except Fault (LoopId × EventLoopThreadPool) := do
  assertInLoopThread t baseLoop
  require (p.started = true) "started_"
  if h : p.loops = [] then .ok (baseLoop, p)
  else
    have hlt := p.next_lt_length h
    .ok (p.loops[p.next], { p with
      next := if p.next + 1 = p.loops.length then 0 else p.next + 1
      next_lt := by split <;> omega })

/-- `NULL` is `none`. -/
def getLoopForHash (p : EventLoopThreadPool) (t : LoopId) (hashCode : UInt64) :
    Except Fault (Option LoopId) := do
  assertInLoopThread t baseLoop
  require (p.started = true) "started_"
  return if p.loops = [] then none else p.loops[hashCode.toNat % p.loops.length]?

def getAllLoops (p : EventLoopThreadPool) (t : LoopId) : Except Fault (List LoopId) := do
  assertInLoopThread t baseLoop
  require (p.started = true) "started_"
  return if p.loops = [] then [baseLoop] else p.loops

end EventLoopThreadPool

/-- What the server keeps and reads of a `TcpConnection`: which object it is, `name_` and
`getLoop()`. -/
structure TcpConnectionPtr where
  self : ℕ
  name : String
  loop : LoopId
  deriving DecidableEq, Repr

/-- The functors that the server queues. -/
inductive ServerFunctor
  | connectEstablished (conn : TcpConnectionPtr)
  | removeConnectionInLoop (conn : TcpConnectionPtr)
  | connectDestory (conn : TcpConnectionPtr)
  deriving DecidableEq, Repr

/-- `insert` is the assignment in `newConnection`, `erase` that in `removeConnectionInLoop`;
each comes with the entry that was there. -/
inductive ServerEffect
  | insert (conn : TcpConnectionPtr) (old : Option TcpConnectionPtr)
  | connectEstablished (conn : TcpConnectionPtr)
  | closeCallback (conn : TcpConnectionPtr)
  | erase (conn : TcpConnectionPtr) (old : Option TcpConnectionPtr)
  | connectDestory (conn : TcpConnectionPtr)
  deriving DecidableEq, Repr

/-- `allocated` counts the connections made so far, `pendingFunctors` are those of each
loop, `effects` is history. -/
structure TcpServer where
  ipPort : String
  name : String
  threadPool : EventLoopThreadPool
  started : Bool
  listening : Bool
  nextConnId : ℤ
  connections : String → Option TcpConnectionPtr
  allocated : ℕ
  pendingFunctors : LoopId → List ServerFunctor
  effects : List ServerEffect

/-- What `%s` prints of a string: all up to its first NUL. -/
def cStr (s : String) : String := String.ofList (s.toList.takeWhile (· ≠ Char.ofNat 0))

/-- What `snprintf` leaves in a buffer: all that fits before the closing NUL. -/
def snprintf (size : ℕ) (s : String) : String := String.ofList (s.toList.take (size - 1))

/-- `++` of an `int`, which wraps around. -/
def incInt (n : ℤ) : ℤ := if n = 2 ^ 31 - 1 then -2 ^ 31 else n + 1

def conname (name ipPort : String) (connId : ℤ) : String :=
  name ++ snprintf 64 ("-" ++ cStr ipPort ++ "#" ++ connId.repr)

namespace TcpServer

def new (name ipPort : String) : TcpServer where
  ipPort := ipPort
  name := name
  threadPool := .new
  started := false
  listening := false
  nextConnId := 1
  connections := fun _ => none
  allocated := 0
  pendingFunctors := fun _ => []
  effects := []

def emit (s : TcpServer) (e : ServerEffect) : TcpServer := { s with effects := s.effects ++ [e] }

def setThreadNum (s : TcpServer) (numThread : ℤ) : Except Fault TcpServer := do
  require (numThread ≥ 0) "numThread >= 0"
  .ok { s with threadPool := s.threadPool.setThreadNum numThread }

/-- `start`: once the pool has started, this is the thread of the base loop and
`Acceptor::listen` runs at once. -/
def start (s : TcpServer) (t : LoopId) : Except Fault TcpServer :=
  if s.started then .ok s
  else do
    let pool ← s.threadPool.start t
    require (s.listening = false) "!acceptor_->listening()"
    .ok { s with started := true, threadPool := pool, listening := true }

def queueInLoop (s : TcpServer) (loop : LoopId) (cb : ServerFunctor) : TcpServer :=
  { s with
    pendingFunctors := Function.update s.pendingFunctors loop (s.pendingFunctors loop ++ [cb]) }

def removeConnectionInLoop (s : TcpServer) (t : LoopId) (conn : TcpConnectionPtr) :
    Except Fault TcpServer := do
  assertInLoopThread t baseLoop
  let old := s.connections conn.name
  let n := if old.isSome then 1 else 0
  require (n = 1) "n == 1"
  .ok (({ s with connections := Function.update s.connections conn.name none }.emit
    (.erase conn old)).queueInLoop conn.loop (.connectDestory conn))

def call (s : TcpServer) (t : LoopId) : ServerFunctor → Except Fault TcpServer
  | .connectEstablished conn => do
    assertInLoopThread t conn.loop
    .ok (s.emit (.connectEstablished conn))
  | .removeConnectionInLoop conn => s.removeConnectionInLoop t conn
  | .connectDestory conn => do
    assertInLoopThread t conn.loop
    .ok (s.emit (.connectDestory conn))

def runInLoop (s : TcpServer) (t loop : LoopId) (cb : ServerFunctor) : Except Fault TcpServer :=
  if t = loop then s.call t cb else .ok (s.queueInLoop loop cb)

def newConnection (s : TcpServer) (t : LoopId) : Except Fault TcpServer := do
  assertInLoopThread t baseLoop
  let (ioLoop, pool) ← s.threadPool.getNextLoop t
  let conn : TcpConnectionPtr := ⟨s.allocated, conname s.name s.ipPort s.nextConnId, ioLoop⟩
  ({ s with
    threadPool := pool
    nextConnId := incInt s.nextConnId
    allocated := s.allocated + 1
    connections := Function.update s.connections conn.name (some conn) }.emit
      (.insert conn (s.connections conn.name))).runInLoop t ioLoop (.connectEstablished conn)

def removeConnection (s : TcpServer) (t : LoopId) (conn : TcpConnectionPtr) :
    Except Fault TcpServer :=
  s.runInLoop t baseLoop (.removeConnectionInLoop conn)

end TcpServer

/-- The calls in the thread of the base loop, the `closeCallback_` of a connection in the
thread of its loop, and the next functor of a loop. -/
inductive ServerAction
  | setThreadNum (numThread : ℕ)
  | start
  | accept
  | close (conn : TcpConnectionPtr)
  | runFunctor (loop : LoopId)
  deriving DecidableEq, Repr

/-- The acceptor calls `newConnection` only once it listens. -/
def TcpServer.step (s : TcpServer) : ServerAction → Except Fault TcpServer
  | .setThreadNum numThread => s.setThreadNum numThread
  | .start => s.start baseLoop
  | .accept => if s.listening then s.newConnection baseLoop else .ok s
  | .close conn => (s.emit (.closeCallback conn)).removeConnection conn.loop conn
  | .runFunctor loop =>
    match s.pendingFunctors loop with
    | [] => .ok s
    | cb :: cbs =>
      { s with pendingFunctors := Function.update s.pendingFunctors loop cbs }.call loop cb

end Czy.Net
