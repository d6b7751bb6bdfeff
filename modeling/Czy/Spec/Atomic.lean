import Mathlib.Algebra.Group.Int.Defs
import Mathlib.Data.Int.Notation
import Mathlib.Tactic

/-! base/atomic.h. A built-in function is one step of its thread. Each member gives what it
returns and the integer then. -/

namespace Czy

structure AtomicInt64 where
  value : ℤ
  deriving DecidableEq, Repr

namespace AtomicInt64

/-- What an `int64_t` keeps of a sum. -/
def wrap (z : ℤ) : ℤ := (z + 2 ^ 63) % 2 ^ 64 - 2 ^ 63

def new : AtomicInt64 := ⟨0⟩

/-- `__sync_val_compare_and_swap(&value_, 0, 0)` -/
def get (a : AtomicInt64) : ℤ × AtomicInt64 := (a.value, if a.value = 0 then ⟨0⟩ else a)

/-- `__sync_fetch_and_add(&value_, x)` -/
def getAndAdd (a : AtomicInt64) (x : ℤ) : ℤ × AtomicInt64 := (a.value, ⟨wrap (a.value + x)⟩)

/-- The sum that is returned is formed behind the step. -/
def addAndGet (a : AtomicInt64) (x : ℤ) : ℤ × AtomicInt64 := ((a.getAndAdd x).1 + x, (a.getAndAdd x).2)

def incrementAndGet (a : AtomicInt64) : ℤ × AtomicInt64 := a.addAndGet 1

theorem wrap_of_lt {z : ℤ} (hlo : -2 ^ 63 ≤ z) (hhi : z < 2 ^ 63) : wrap z = z := by
  rw [wrap]
  omega

theorem get_value (a : AtomicInt64) : a.get = (a.value, a) := by
  obtain ⟨value⟩ := a
  rw [get]
  split_ifs with h
  · rw [show value = 0 from h]
  · rfl

end AtomicInt64

end Czy
