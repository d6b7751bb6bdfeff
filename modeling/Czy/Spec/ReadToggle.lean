import Czy.Spec.TcpConnection

/-! `startRead` and `stopRead` of net/tcp_connection.cpp on their way through
`EventLoop::runInLoop`. A run has `fuel` for the calls that are made in one another. -/

namespace Czy.Net

inductive ReadCall
  | startRead | stopRead
  deriving DecidableEq, Repr

/-- What the two calls bind. -/
inductive ReadFunctor
  | startRead | stopReadInLoop
  deriving DecidableEq, Repr

/-- `startRead` binds itself. -/
def ReadCall.bound : ReadCall → ReadFunctor
  | .startRead => .startRead
  | .stopRead => .stopReadInLoop

/-- A connection with the functors queued for it, and the calls that have been
processed. -/
structure ReadToggle where
  conn : TcpConnection
  pending : List ReadFunctor
  processed : List ReadCall

inductive ReadOp
  | call (inLoop : Bool) (c : ReadCall)
  | runPending
  deriving DecidableEq, Repr

namespace ReadToggle

def start (c : TcpConnection) : ReadToggle := ⟨c, [], []⟩

/-- A functor on the loop's thread. There `runInLoop` calls what it is given, so that
`startRead` is in `startRead` again. -/
def runFunctor : ℕ → ReadFunctor → ReadToggle → Except Unit ReadToggle
  | 0, _, _ => .error ()
  | fuel + 1, .startRead, s => runFunctor fuel ReadCall.startRead.bound s
  | _ + 1, .stopReadInLoop, s =>
    .ok { s with conn := s.conn.stopReadInLoop, processed := s.processed ++ [.stopRead] }

/-- `loop_->runInLoop` of what the call binds. -/
def call (fuel : ℕ) (inLoop : Bool) (c : ReadCall) (s : ReadToggle) : Except Unit ReadToggle :=
  if inLoop then runFunctor fuel c.bound s
  else .ok { s with pending := s.pending ++ [c.bound] }

def runPending (fuel : ℕ) (s : ReadToggle) : Except Unit ReadToggle :=
  match s.pending with
  | [] => .ok s
  | f :: fs => runFunctor fuel f { s with pending := fs }

def step (fuel : ℕ) (s : ReadToggle) : ReadOp → Except Unit ReadToggle
  | .call inLoop c => s.call fuel inLoop c
  | .runPending => s.runPending fuel

end ReadToggle

end Czy.Net
