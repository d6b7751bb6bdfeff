import Czy.Lib.OrderedSet
import Czy.Spec.Fault
import Mathlib.Data.Prod.Lex
import Mathlib.Logic.Function.Basic

/-! net/timer_queue.cpp and net/timer.cpp: the timers of a loop, with the memory that they
are allocated from and the timerfd. A `TimeStamp` is its microseconds, a `Timer*` an
address. User callbacks are left open: in one the loop's thread may add and cancel. -/

namespace Czy.Net

/-- `interval` is `interval_` as `add_time` converts it, in microseconds. -/
structure Timer where
  expiration : ℤ
  interval : ℤ
  repeats : Bool
  sequence : ℤ
  deriving DecidableEq, Repr

/-- `Timer::restart`. -/
def Timer.restart (timer : Timer) (now : ℤ) : Timer :=
  { timer with expiration := if timer.repeats then now + timer.interval else 0 }

def uintptrMax : ℕ := 18446744073709551615

abbrev Entry := ℤ ×ₗ ℕ

abbrev ActiveTimer := ℕ ×ₗ ℤ

/-- The members of `std::pair<TimeStamp, Timer*>`. -/
def Entry.time (e : Entry) : ℤ := (ofLex e).1

def Entry.timer (e : Entry) : ℕ := (ofLex e).2

/-- The members of `std::pair<Timer*, int64_t>`, and of a `TimerId`. -/
def ActiveTimer.timer (id : ActiveTimer) : ℕ := (ofLex id).1

def ActiveTimer.sequence (id : ActiveTimer) : ℤ := (ofLex id).2

/-- Where the loop's thread is: outside `handleRead`, or in its loop over the expired
timers, in a callback or between two. -/
inductive ReadPosition
  | outside
  | running (rest : List Entry) (inCallback : Bool)
  deriving DecidableEq

/-- `heap` holds the live timers by their addresses, `pending` those that `addTimer` has
handed to the loop, and `batch` the vector last returned by `getExpired`, until `reset`.
The timerfd is one-shot: armed until `expiry`, or `readable`. `clock` are the microseconds
of the clock. The last five fields are history. -/
structure TimerQueue where
  heap : ℕ → Option Timer
  timer : OrderedSet Entry
  activeTimer : OrderedSet ActiveTimer
  callingExpiredTimers : Bool
  cancelingTimer : OrderedSet ActiveTimer
  pending : List ℕ
  batch : Option (List Entry)
  position : ReadPosition
  clock : ℤ
  expiry : Option ℤ
  readable : Bool
  armedAt : ℤ
  batchIds : List ActiveTimer
  created : List ActiveTimer
  deleted : List ActiveTimer
  ran : List ActiveTimer

/-- `found` is what `addTimerInLoop` takes for the value of the call of `insert`, which ends
without returning one. -/
inductive TimerOp
  | newTimer (timer : ℕ) (sequence : ℤ) (whenAt : ℤ) (interval : ℤ) (repeats : Bool)
  | addTimerInLoop (timer : ℕ) (found : Bool)
  | cancelInLoop (timerid : ActiveTimer)
  | handleRead
  | runTimer
  | callbackReturns
  | endHandleRead
  | reset (now : ℤ)
  | setClock (clock : ℤ)
  deriving DecidableEq

/-- The operation calls `insert`, in whatever state. -/
def TimerOp.adds : TimerOp → Bool
  | .addTimerInLoop _ _ => true
  | _ => false

namespace TimerQueue

def new (clock : ℤ) : TimerQueue where
  heap := fun _ => none
  timer := .empty
  activeTimer := .empty
  callingExpiredTimers := false
  cancelingTimer := .empty
  pending := []
  batch := none
  position := .outside
  clock := clock
  expiry := none
  readable := false
  armedAt := 0
  batchIds := []
  created := []
  deleted := []
  ran := []

/-- `new Timer(cb, when, interval)` in `addTimer`, which any thread may call. -/
def newTimer (q : TimerQueue) (timer : ℕ) (sequence whenAt interval : ℤ) (repeats : Bool) :
    TimerQueue :=
  { q with heap := Function.update q.heap timer (some ⟨whenAt, interval, repeats, sequence⟩)
           pending := q.pending ++ [timer]
           created := q.created ++ [toLex (timer, sequence)] }

def deleteTimer (q : TimerQueue) (id : ActiveTimer) : TimerQueue :=
  { q with heap := Function.update q.heap id.timer none, deleted := q.deleted ++ [id] }

/-- `TimeStamp::now()`: the microseconds of the clock are not taken over. -/
def now (q : TimerQueue) : ℤ := q.clock / 1000000 * 1000000

/-- `howMuchTimeFromNow`. -/
def howMuchTimeFromNow (q : TimerQueue) (whenAt : ℤ) : ℤ := max (whenAt - q.now) 100

/-- Its result, a `struct timespec`: the seconds and the nanoseconds. -/
def timespecFromNow (q : TimerQueue) (whenAt : ℤ) : ℤ × ℤ :=
  (q.howMuchTimeFromNow whenAt / 1000000, q.howMuchTimeFromNow whenAt % 1000000 * 1000)

/-- `EventLoop::runAfter`, up to the call of `addTimerInLoop`; `delay` in microseconds. -/
def runAfter (q : TimerQueue) (timer : ℕ) (sequence delay : ℤ) : TimerQueue :=
  q.newTimer timer sequence (q.now + delay) 0 false

def resetTimerfd (q : TimerQueue) (expiration : ℤ) : TimerQueue :=
  { q with expiry := some (q.clock + q.howMuchTimeFromNow expiration), readable := false,
           armedAt := q.clock }

/-- The clock goes on; the timerfd expires when it is due. -/
def setClock (q : TimerQueue) (clock : ℤ) : TimerQueue :=
  match q.expiry with
  | some f => if f ≤ clock then { q with clock := clock, expiry := none, readable := true }
    else { q with clock := clock }
  | none => { q with clock := clock }

/-- `earliestChanged` as `insert` computes it, and does not return it. -/
def earliestChanged (q : TimerQueue) (whenAt : ℤ) : Bool :=
  match q.timer.first with
  | none => true
  | some e => whenAt < e.time

/-- It has no `return`, so that every call is undefined: `found` is `none`. In a build that
goes on behind the call, `found` is what the caller takes for the value. -/
def insert (q : TimerQueue) (p : ℕ) (found : Option Bool) : Except Abort (TimerQueue × Bool) := do
  check (q.timer.size = q.activeTimer.size) "timer_.size() == activeTimer_.size()"
  let timer ← deref (q.heap p) "timer"
  check (toLex (timer.expiration, p) ∉ q.timer) "result.second"
  check (toLex (p, timer.sequence) ∉ q.activeTimer) "result.second"
  let result ← missingReturn found "TimerQueue::insert"
  return ({ q with timer := q.timer.insert (toLex (timer.expiration, p))
                   activeTimer := q.activeTimer.insert (toLex (p, timer.sequence)) }, result)

def addTimerInLoop (q : TimerQueue) (p : ℕ) (found : Option Bool) : Except Abort TimerQueue := do
  let (q, earliestChanged) ← { q with pending := q.pending.erase p }.insert p found
  if earliestChanged then
    let timer ← deref (q.heap p) "timer"
    return q.resetTimerfd timer.expiration
  else
    return q

def cancelInLoop (q : TimerQueue) (id : ActiveTimer) : Except Abort TimerQueue := do
  check (q.timer.size = q.activeTimer.size) "timer_.size() == activeTimer_.size()"
  if id ∈ q.activeTimer then
    let timer ← deref (q.heap id.timer) "iter->first"
    check (toLex (timer.expiration, id.timer) ∈ q.timer) "n == 1"
    let q := { q.deleteTimer id with timer := q.timer.erase (toLex (timer.expiration, id.timer))
                                     activeTimer := q.activeTimer.erase id }
    check (q.timer.size = q.activeTimer.size) "timer_.size() == activeTimer_.size()"
    return q
  else if q.callingExpiredTimers then
    return { q with cancelingTimer := q.cancelingTimer.insert id }
  else
    return q

def eraseActive (heap : ℕ → Option Timer) : List Entry → OrderedSet ActiveTimer →
    Except Abort (OrderedSet ActiveTimer × List ActiveTimer)
  | [], active => .ok (active, [])
  | it :: expired, active => do
    let timer ← deref (heap it.timer) "it.second"
    check (toLex (it.timer, timer.sequence) ∈ active) "n == 1"
    let (active, ids) ← eraseActive heap expired (active.erase (toLex (it.timer, timer.sequence)))
    return (active, toLex (it.timer, timer.sequence) :: ids)

/-- The vector that is returned becomes the batch. -/
def getExpired (q : TimerQueue) (now : ℤ) : Except Abort TimerQueue := do
  check (q.timer.size = q.activeTimer.size) "timer_.size() == activeTimer_.size()"
  let sentry : Entry := toLex (now, uintptrMax)
  let expired := q.timer.below sentry
  let rest := q.timer.atLeast sentry
  check (∀ e ∈ rest.first, now ≤ e.time) "end == timer_.end() || now <= end->first"
  let (active, ids) ← eraseActive q.heap expired q.activeTimer
  check (rest.size = active.size) "timer_.size() == activeTimer_.size()"
  return { q with timer := rest, activeTimer := active, batch := some expired, batchIds := ids }

/-- `handleRead` up to its loop. -/
def handleRead (q : TimerQueue) : Except Abort TimerQueue := do
  let q ← { q with readable := false }.getExpired q.now
  return { q with callingExpiredTimers := true, cancelingTimer := .empty
                  position := .running (q.batch.getD []) false }

def runTimer (q : TimerQueue) : Except Abort TimerQueue :=
  match q.position with
  | .running (it :: rest) false => do
    let timer ← deref (q.heap it.timer) "it.second"
    return { q with position := .running rest true
                    ran := q.ran ++ [toLex (it.timer, timer.sequence)] }
  | _ => .ok q

def callbackReturns (q : TimerQueue) : TimerQueue :=
  match q.position with
  | .running rest true => { q with position := .running rest false }
  | _ => q

def endHandleRead (q : TimerQueue) : TimerQueue :=
  { q with callingExpiredTimers := false, position := .outside }

/-- One round of the loop of `reset`, which drops what `insert` gives. -/
def resetOne (found : Option Bool) (q : TimerQueue) (p : ℕ) (now : ℤ) : Except Abort TimerQueue := do
  let timer ← deref (q.heap p) "it.second"
  if timer.repeats ∧ toLex (p, timer.sequence) ∉ q.cancelingTimer then
    let (q, _) ← insert { q with heap := Function.update q.heap p (some (timer.restart now)) } p found
    return q
  else
    return q.deleteTimer (toLex (p, timer.sequence))

def resetLoop (found : Option Bool) (now : ℤ) : List Entry → TimerQueue → Except Abort TimerQueue
  | [], q => .ok { q with batch := none }
  | it :: expired, q => do
    let q ← resetOne found { q with batch := some expired } it.timer now
    resetLoop found now expired q

def reset (q : TimerQueue) (now : ℤ) (found : Option Bool) : Except Abort TimerQueue := do
  let q ← resetLoop found now (q.batch.getD []) q
  match q.timer.first with
  | none => return q
  | some e =>
    let timer ← deref (q.heap e.timer) "timer_.begin()->second"
    -- `nextExpired.valid()`
    return if timer.expiration > 0 then q.resetTimerfd timer.expiration else q

/-- In a build that goes on behind the calls of `insert`. -/
def step (q : TimerQueue) : TimerOp → Except Abort TimerQueue
  | .newTimer timer sequence whenAt interval repeats =>
    .ok (q.newTimer timer sequence whenAt interval repeats)
  | .addTimerInLoop timer found => q.addTimerInLoop timer (some found)
  | .cancelInLoop timerid => q.cancelInLoop timerid
  | .handleRead => q.handleRead
  | .runTimer => q.runTimer
  | .callbackReturns => .ok q.callbackReturns
  | .endHandleRead => .ok q.endHandleRead
  | .reset now => q.reset now (some false)
  | .setClock clock => .ok (q.setClock clock)

/-- As the language has it: no call of `insert` returns. -/
def strictStep (q : TimerQueue) : TimerOp → Except Abort TimerQueue
  | .addTimerInLoop timer _ => q.addTimerInLoop timer none
  | .reset now => q.reset now none
  | o => q.step o

/-- Where the loop's thread may call `addTimerInLoop` and `cancelInLoop`. -/
def mayCall (q : TimerQueue) : Bool :=
  match q.position with
  | .outside | .running _ true => true
  | .running _ false => false

/-- The loop of `handleRead` has a timer left to run. -/
def mayRun (q : TimerQueue) : Bool :=
  match q.position with
  | .running (_ :: _) false => true
  | _ => false

def inCallback (q : TimerQueue) : Bool :=
  match q.position with
  | .running _ true => true
  | _ => false

/-- A new timer gets an address that no live one has, and a sequence number never used
before. Each is added once, and the loop's thread does one thing after the other. -/
def Allowed (q : TimerQueue) : TimerOp → Prop
  | .newTimer timer sequence _ _ _ =>
    q.heap timer = none ∧ timer < uintptrMax ∧ ∀ id ∈ q.created, id.sequence ≠ sequence
  | .addTimerInLoop timer _ => q.mayCall ∧ timer ∈ q.pending
  | .cancelInLoop _ => q.mayCall
  | .handleRead => q.position = .outside
  | .runTimer => q.mayRun
  | .callbackReturns => q.inCallback
  | .endHandleRead => q.position = .running [] false
  | .reset _ => q.position = .outside ∧ q.batch.isSome
  | .setClock _ => True

instance (q : TimerQueue) (o : TimerOp) : Decidable (q.Allowed o) :=
  match o with
  | .newTimer _ _ _ _ _ => inferInstanceAs (Decidable (_ ∧ _ ∧ _))
  | .addTimerInLoop _ _ => inferInstanceAs (Decidable (_ ∧ _))
  | .cancelInLoop _ => inferInstanceAs (Decidable (q.mayCall = true))
  | .handleRead => inferInstanceAs (Decidable (_ = _))
  | .runTimer => inferInstanceAs (Decidable (q.mayRun = true))
  | .callbackReturns => inferInstanceAs (Decidable (q.inCallback = true))
  | .endHandleRead => inferInstanceAs (Decidable (_ = _))
  | .reset _ => inferInstanceAs (Decidable (_ ∧ _))
  | .setClock _ => .isTrue trivial

end TimerQueue

end Czy.Net
