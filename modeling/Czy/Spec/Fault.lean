import Mathlib.Algebra.Group.Int.Defs
import Mathlib.Algebra.Group.Nat.Defs
import Mathlib.Data.Int.Notation
import Mathlib.Data.Nat.Notation

/-! How a call can fail to return. Assertions are compiled in: the preconditions
of the source are stated by nothing else. -/

namespace Czy

/-- A call that does not return: a failed `assert`, by its text, a `LOG_SYSFATAL`, by
its text, or a failed `assertInLoopThread`. All abort the process. -/
inductive Fault
  | assertion (cond : String)
  | sysFatal (msg : String)
  | notInLoopThread
  deriving DecidableEq, Repr

def require (c : Prop) [Decidable c] (cond : String) : Except Fault Unit :=
  if c then .ok () else .error (.assertion cond)

variable {α β ε : Type}

theorem ok_bind (a : α) (f : α → Except ε β) : (Except.ok a >>= f) = f a := rfl

theorem bind_ok {x : Except ε α} {f : α → Except ε β} {r : β} :
    (x >>= f) = .ok r ↔ ∃ a, x = .ok a ∧ f a = .ok r := by
  cases x with
  | error e => simp [bind, Except.bind]
  | ok a => simp [bind, Except.bind]

theorem map_ok {x : Except ε α} {f : α → β} {r : β} : x.map f = .ok r ↔ ∃ a, x = .ok a ∧ f a = r := by
  cases x with
  | error e => simp [Except.map]
  | ok a => simp [Except.map]

theorem require_ok {c : Prop} [Decidable c] {cond : String} {u : Unit} :
    require c cond = .ok u ↔ c := by
  unfold require
  split <;> simp_all

theorem require_bind_ok {c : Prop} [Decidable c] {cond : String} {f : Unit → Except Fault α}
    {r : α} : (require c cond >>= f) = .ok r ↔ c ∧ f () = .ok r := by
  simp only [bind_ok, require_ok]
  exact ⟨fun ⟨_, hc, h⟩ => ⟨hc, h⟩, fun ⟨hc, h⟩ => ⟨(), hc, h⟩⟩

theorem require_bind {c : Prop} [Decidable c] (h : c) (cond : String) (f : Unit → Except Fault α) :
    (require c cond >>= f) = f () := by
  simp [require, h, bind, Except.bind]

/-- Where pointers are modelled: a failed `assert`, by its text, the use of a pointer that
is null or whose object has been deleted, or the end of a function that returns a value and
has no `return` there. The last two are undefined. -/
inductive Abort
  | assertion (cond : String)
  | badPointer (expr : String)
  | noReturn (function : String)
  deriving DecidableEq, Repr

def check (c : Prop) [Decidable c] (cond : String) : Except Abort Unit :=
  if c then .ok () else .error (.assertion cond)

def deref (p : Option α) (expr : String) : Except Abort α :=
  match p with
  | some a => .ok a
  | none => .error (.badPointer expr)

/-- The end of a function without its `return`: what the call gives nevertheless, if anything. -/
def missingReturn (found : Option α) (function : String) : Except Abort α :=
  match found with
  | some a => .ok a
  | none => .error (.noReturn function)

theorem check_ok {c : Prop} [Decidable c] {cond : String} {u : Unit} :
    check c cond = .ok u ↔ c := by
  unfold check
  split <;> simp_all

theorem check_bind {c : Prop} [Decidable c] (h : c) (cond : String) (f : Unit → Except Abort α) :
    (check c cond >>= f) = f () := by
  rw [check, if_pos h, ok_bind]

theorem deref_some (a : α) (expr : String) : deref (some a) expr = .ok a := rfl

theorem deref_ok {p : Option α} {expr : String} {a : α} (h : deref p expr = .ok a) : p = some a := by
  cases p with
  | none => cases h
  | some b => rw [deref, Except.ok.injEq] at h; rw [h]

theorem missingReturn_none (function : String) :
    missingReturn (none : Option α) function = .error (.noReturn function) := rfl

theorem missingReturn_ok {found : Option α} {function : String} {a : α}
    (h : missingReturn found function = .ok a) : found = some a := by
  cases found with
  | none => cases h
  | some b => rw [missingReturn, Except.ok.injEq] at h; rw [h]

/-- `size_t` arithmetic: a sum is kept modulo 2^64. -/
def sizeT (n : ℕ) : ℕ := n % 2 ^ 64

/-- `static_cast<int>` of a `size_t`. -/
def intOfSize (n : ℕ) : ℤ :=
  if n % 2 ^ 32 < 2 ^ 31 then (n % 2 ^ 32 : ℕ) else (n % 2 ^ 32 : ℕ) - 2 ^ 32

/-- An `int` passed for a `size_t`. -/
def sizeOfInt (z : ℤ) : ℕ := (z % 2 ^ 64).toNat

/-- A size that fits an `int` survives the trip through it. -/
theorem sizeOfInt_intOfSize {n : ℕ} (h : n < 2 ^ 31) : sizeOfInt (intOfSize n) = n := by
  unfold sizeOfInt intOfSize
  split <;> omega

theorem sizeOfInt_of_nonneg {n : ℤ} (h0 : 0 ≤ n) (h : n < 2 ^ 31) : sizeOfInt n = n.toNat := by
  unfold sizeOfInt
  omega

theorem intOfSize_le (n : ℕ) : intOfSize n ≤ n := by
  unfold intOfSize
  split <;> omega

theorem intOfSize_int (n : ℕ) : -2 ^ 31 ≤ intOfSize n ∧ intOfSize n < 2 ^ 31 := by
  unfold intOfSize
  split <;> omega

theorem intOfSize_nonneg_iff {n : ℕ} (h : n < 2 ^ 32) : 0 ≤ intOfSize n ↔ n < 2 ^ 31 := by
  unfold intOfSize
  split <;> omega

end Czy
