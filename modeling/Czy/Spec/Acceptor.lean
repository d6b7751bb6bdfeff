import Czy.Lib.Descriptors
import Czy.Spec.Fault

/-! net/acceptor.cpp with `sockets::accept` of net/socketops.cpp, in a process whose other
threads open and close descriptors between any two system calls. Log lines are left out, but
for `LOG_FATAL`, which aborts, and for the `errno` that `LOG_SYSERR` leaves. -/

namespace Czy.Net

open Descriptors

/-- The values of `errno` that `sockets::accept` distinguishes. -/
inductive AcceptErrno
  | EAGAIN | ECONNABORTED | EINTR | EPROTO | EPERM | EMFILE
  | EBADF | EFAULT | EINVAL | ENFILE | ENOBUFS | ENOMEM | ENOTSOCK | EOPNOTSUPP
  | unknown (n : ℕ)
  deriving DecidableEq, Repr

/-- What a descriptor is open for: the placeholder of the acceptor, a connection by its number,
or what other threads have opened. -/
inductive FileKind
  | devNull
  | connection (id : ℕ)
  | other
  deriving DecidableEq, Repr

/-- Where `handleRead` is, between two of its system calls. -/
inductive AcceptorPc
  | atRest
  | accepted (connfd : ℕ)
  | closeIdle
  | acceptIdle
  | closeAccepted
  | reopen
  | destroyed
  deriving DecidableEq, Repr

structure Acceptor where
  /-- `newConnectionCallback_` is set. -/
  newConnectionCallback : Bool
  /-- A negative `idleFd_` is `none`. -/
  idleFd : Option ℕ
  pc : AcceptorPc
  table : List (Option FileKind)
  /-- The connections that wait to be accepted, and the number of those that have arrived. -/
  backlog : List ℕ
  arrived : ℕ
  /-- The calls of `handleRead`, and the connections that `accept` has given out. -/
  events : ℕ
  taken : List ℕ
  passed : List ℕ
  /-- Accepted and closed by the acceptor. -/
  dropped : List ℕ
  /-- Gone before they were accepted. -/
  withdrawn : List ℕ
  deriving DecidableEq, Repr

namespace Acceptor

/-- The constructor, in a process with these descriptors. -/
def create (table : List (Option FileKind)) (newConnectionCallback : Bool) :
    Except Fault Acceptor :=
  match allocate table .devNull with
  | none => .error (.assertion "idleFd_ >= 0")
  | some (fd, table) =>
    .ok ⟨newConnectionCallback, some fd, .atRest, table, [], 0, 0, [], [], [], []⟩

/-- `accept` of the kernel, which takes a descriptor before it looks at the backlog; `failure` is
an error of its own. -/
def acceptCall (s : Acceptor) (failure : Option AcceptErrno) : Except AcceptErrno (ℕ × Acceptor) :=
  match lowestFree s.table, failure, s.backlog with
  | none, _, _ => .error .EMFILE
  | some _, some errno, _ => .error errno
  | some _, none, [] => .error .EAGAIN
  | some fd, none, id :: backlog =>
    .ok (fd, { s with
      table := s.table.set fd (some (.connection id))
      backlog := backlog
      taken := s.taken ++ [id] })

def closeFd (s : Acceptor) : Option ℕ → Acceptor
  | some fd => { s with table := release s.table fd }
  | none => s

def connectionAt (s : Acceptor) (fd : ℕ) : List ℕ :=
  match file s.table fd with
  | some (.connection id) => [id]
  | _ => []

/-- `handleRead` up to the test of `errno`; `logged` is what `LOG_SYSERR` leaves in it, if it
changes it. -/
def handleRead (s : Acceptor) (failure logged : Option AcceptErrno) : Except Fault Acceptor :=
  let s := { s with events := s.events + 1 }
  match s.acceptCall failure with
  | .ok (connfd, s) => .ok { s with pc := .accepted connfd }
  | .error errno =>
    match errno with
    | .EAGAIN | .ECONNABORTED | .EINTR | .EPROTO | .EPERM | .EMFILE =>
      if logged.getD errno = .EMFILE then .ok { s with pc := .closeIdle } else .ok s
    | .EBADF | .EFAULT | .EINVAL | .ENFILE | .ENOBUFS | .ENOMEM | .ENOTSOCK | .EOPNOTSUPP =>
      .error (.sysFatal "unexpected error of ::accept ")
    | .unknown _ => .error (.sysFatal "unknown error of ::accept ")

/-- The rest of `handleRead`, a system call or the callback at a time. -/
def proceed (s : Acceptor) (failure : Option AcceptErrno) : Acceptor :=
  match s.pc with
  | .accepted connfd =>
    if s.newConnectionCallback then
      { s with passed := s.passed ++ s.connectionAt connfd, pc := .atRest }
    else
      { s.closeFd (some connfd) with
        dropped := s.dropped ++ s.connectionAt connfd
        pc := .atRest }
  | .closeIdle => { s.closeFd s.idleFd with pc := .acceptIdle }
  | .acceptIdle =>
    match s.acceptCall failure with
    | .ok (fd, s) => { s with idleFd := some fd, pc := .closeAccepted }
    | .error _ => { s with idleFd := none, pc := .closeAccepted }
  | .closeAccepted =>
    { s.closeFd s.idleFd with
      dropped := s.dropped ++ s.idleFd.toList.flatMap s.connectionAt
      pc := .reopen }
  | .reopen =>
    match allocate s.table .devNull with
    | some (fd, table) => { s with idleFd := some fd, table := table, pc := .atRest }
    | none => { s with idleFd := none, pc := .atRest }
  | .atRest | .destroyed => s

def destroy (s : Acceptor) : Acceptor := { s.closeFd s.idleFd with pc := .destroyed }

inductive Operation
  | readEvent (failure logged : Option AcceptErrno)
  | proceed (failure : Option AcceptErrno)
  | destroy
  | arrive
  | withdraw (i : ℕ)
  | otherOpen
  | otherClose (fd : ℕ)
  deriving DecidableEq, Repr

/-- The descriptor of a connection that was passed on, or of another thread. -/
def foreign (s : Acceptor) (fd : ℕ) : Bool :=
  match file s.table fd with
  | some (.connection id) => id ∈ s.passed
  | some .other => true
  | some .devNull | none => false

/-- What cannot happen in a state leaves it as it is. Other threads close what is theirs. -/
def step (s : Acceptor) : Operation → Except Fault Acceptor
  | .readEvent failure logged =>
    if s.pc = .atRest then s.handleRead failure logged else .ok s
  | .proceed failure => .ok (s.proceed failure)
  | .destroy => if s.pc = .atRest then .ok s.destroy else .ok s
  | .arrive => .ok { s with backlog := s.backlog ++ [s.arrived], arrived := s.arrived + 1 }
  | .withdraw i => .ok { s with
      backlog := s.backlog.eraseIdx i
      withdrawn := s.withdrawn ++ s.backlog[i]?.toList }
  | .otherOpen =>
    match allocate s.table .other with
    | some (_, table) => .ok { s with table := table }
    | none => .ok s
  | .otherClose fd => .ok (if s.foreign fd then { s with table := release s.table fd } else s)

end Acceptor

end Czy.Net
