import Czy.Lib.Lexicographic
import Czy.Spec.Fault
import Mathlib.Data.UInt

/-! base/string_piece.h. A pointer is the memory from it on. -/

namespace Czy

def memcmp : List UInt8 → List UInt8 → ℕ → ℤ :=
  Lexicographic.firstDiff fun a b => (a.toNat : ℤ) - b.toNat

/-- `m_length` is an `int`, and no more than there is behind `m_ptr`. -/
structure StringPiece where
  ptr : List UInt8
  length : ℤ
  length_int : -2 ^ 31 ≤ length ∧ length < 2 ^ 31
  length_le : length ≤ ptr.length
  deriving DecidableEq

namespace StringPiece

/-- The piece of a null pointer. -/
def new : StringPiece := ⟨[], 0, by decide, le_rfl⟩

def set (_ : StringPiece) (buffer : List UInt8) (length : ℤ)
    (hint : -2 ^ 31 ≤ length ∧ length < 2 ^ 31) (hle : length ≤ buffer.length) : StringPiece :=
  ⟨buffer, length, hint, hle⟩

def eq (x y : StringPiece) : Bool :=
  x.length = y.length && memcmp x.ptr y.ptr (sizeOfInt x.length) = 0

def ne (x y : StringPiece) : Bool := !x.eq y

def memcmpShorter (x y : StringPiece) : ℤ :=
  memcmp x.ptr y.ptr (sizeOfInt (if x.length < y.length then x.length else y.length))

def binaryPredicate (cmp auxcmp : ℤ → ℤ → Prop) [DecidableRel cmp] [DecidableRel auxcmp]
    (x y : StringPiece) : Bool :=
  let r := x.memcmpShorter y
  auxcmp r 0 || r = 0 && cmp x.length y.length

def lt : StringPiece → StringPiece → Bool := binaryPredicate (· < ·) (· < ·)

def le : StringPiece → StringPiece → Bool := binaryPredicate (· ≤ ·) (· < ·)

def ge : StringPiece → StringPiece → Bool := binaryPredicate (· ≥ ·) (· > ·)

def gt : StringPiece → StringPiece → Bool := binaryPredicate (· > ·) (· > ·)

def compare (x y : StringPiece) : ℤ :=
  let r := x.memcmpShorter y
  if r = 0 then
    if x.length < y.length then -1
    else if x.length > y.length then 1
    else r
  else r

/-- `string(data(), size())`, which throws a `length_error` at a negative size. -/
def asString (x : StringPiece) : Option (List UInt8) :=
  if x.length < 0 then none else some (x.ptr.take (sizeOfInt x.length))

def startsWith (x y : StringPiece) : Bool :=
  x.length ≥ y.length && memcmp x.ptr y.ptr (sizeOfInt y.length) = 0

end StringPiece

end Czy
