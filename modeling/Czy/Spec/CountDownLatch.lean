import Czy.Lib.Monitor

/-! base/count_down_latch.cpp. The count is an `int`; an underflow wraps around. -/

namespace Czy

/-- The functions of a latch that take its mutex and wait or signal. -/
inductive LatchOp
  | wait | countDown
  deriving DecidableEq, Repr

namespace CountDownLatch

open Monitor

/-- There is one condition, `cond_`. -/
def wait (count : Int32) : Outcome Int32 Unit :=
  if count > 0 then .waits () else .returns count .none

def countDown (count : Int32) : Outcome Int32 Unit :=
  let count := count - 1
  if count = 0 then .returns count (.all ()) else .returns count .none

def body : LatchOp → Int32 → Outcome Int32 Unit
  | .wait => wait
  | .countDown => countDown

end CountDownLatch

end Czy
