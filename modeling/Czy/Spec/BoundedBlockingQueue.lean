import Czy.Lib.Monitor

/-! base/bounded_blocking_queue.h. The items that have been put and taken are kept as history. -/

namespace Czy

inductive QueueCond
  | notEmpty | notFull
  deriving DecidableEq, Repr

/-- The functions that wait; `putMove` is the `put` of a `T &&`. -/
inductive QueueOp (T : Type)
  | put (x : T)
  | putMove (x : T)
  | take
  deriving DecidableEq

structure BoundedBlockingQueue (T : Type) where
  maxSize : ℕ
  queue : List T
  wasPut : List T
  taken : List T
  deriving DecidableEq

namespace BoundedBlockingQueue

open Monitor

variable {T : Type}

def new (maxSize : ℕ) : BoundedBlockingQueue T := ⟨maxSize, [], [], []⟩

/-- `boost::circular_buffer::full`. -/
def full (q : BoundedBlockingQueue T) : Bool := q.queue.length = q.maxSize

/-- `boost::circular_buffer::push_back`, which overwrites the front of a full buffer. -/
def pushBack (q : BoundedBlockingQueue T) (x : T) : BoundedBlockingQueue T :=
  { q with
    queue := if q.full then (q.queue ++ [x]).drop 1 else q.queue ++ [x]
    wasPut := q.wasPut ++ [x] }

/-- The text of both `put`s. A full queue is waited for on `m_not_empty`. -/
def putWith (x : T) (q : BoundedBlockingQueue T) : Outcome (BoundedBlockingQueue T) QueueCond :=
  if q.full then .waits .notEmpty else .returns (q.pushBack x) (.one .notEmpty)

def put (x : T) : BoundedBlockingQueue T → Outcome (BoundedBlockingQueue T) QueueCond := putWith x

def putMove (x : T) : BoundedBlockingQueue T → Outcome (BoundedBlockingQueue T) QueueCond := putWith x

/- What is left of an item that has been moved from. -/
variable (movedFrom : T → T)

/-- `m_queue.pop_front` is named and not called: what is left of the item stays in front. -/
def take (q : BoundedBlockingQueue T) : Outcome (BoundedBlockingQueue T) QueueCond :=
  match q.queue with
  | [] => .waits .notEmpty
  | front :: rest =>
    .returns { q with queue := movedFrom front :: rest, taken := q.taken ++ [front] } (.one .notFull)

def body : QueueOp T → BoundedBlockingQueue T → Outcome (BoundedBlockingQueue T) QueueCond
  | .put x => put x
  | .putMove x => putMove x
  | .take => take movedFrom

end BoundedBlockingQueue

end Czy
