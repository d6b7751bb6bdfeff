import Czy.Spec.Connector

/-! net/connector.cpp by the clock, with the timers of `EventLoop::runAfter`. Times are
microseconds, delays milliseconds; the clock is not set back. -/

namespace Czy.Net

/-- `TimeStamp::now()` at a time: the microseconds of the second are dropped. -/
def timeStampNow (time : ℕ) : ℕ := time / 1000000 * 1000000

/-- `due` are the expirations of `timers`, one for each. -/
structure ConnectorClock where
  connector : Connector
  now : ℕ
  due : List ℕ
  deriving DecidableEq, Repr

namespace ConnectorClock

inductive Operation
  | tick (us : ℕ)
  | connector (o : Connector.Operation)
  deriving DecidableEq, Repr

/-- `TimerQueue::getExpired` takes a timer from its expiration on. -/
def mayHappen (s : ConnectorClock) : Connector.Operation → Bool
  | .timer i _ => s.due[i]?.any (· ≤ timeStampNow s.now)
  | _ => true

def rest (s : ConnectorClock) : Connector.Operation → List ℕ
  | .timer i _ => s.due.eraseIdx i
  | _ => s.due

/-- `add_time(TimeStamp::now(), delay)` of `runAfter`. -/
def expiration (s : ConnectorClock) (delayMs : ℕ) : ℕ := timeStampNow s.now + delayMs * 1000

def step (s : ConnectorClock) : Operation → Except Abort ConnectorClock
  | .tick us => .ok { s with now := s.now + us }
  | .connector o =>
    if s.mayHappen o then do
      let c ← s.connector.step o
      let rest := s.rest o
      return ⟨c, s.now, rest ++ (c.timers.drop rest.length).map s.expiration⟩
    else .ok s

end ConnectorClock

end Czy.Net
