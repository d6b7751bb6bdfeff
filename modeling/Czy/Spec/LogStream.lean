import Czy.Lib.CString
import Czy.Lib.Window
import Czy.Spec.AsyncLogging
import Mathlib.Data.UInt

/-! base/log_stream.h and base/log_stream.cpp: numbers as text, and a stream over the
array of its `FixBuffer`. A function that writes from a pointer on gives the bytes
it leaves there. -/

namespace Czy

/-- The values of an integer type. -/
class IntegerType (T : Type) where
  toInt : T → ℤ

export IntegerType (toInt)

instance : IntegerType Int32 := ⟨Int32.toInt⟩
instance : IntegerType Int64 := ⟨Int64.toInt⟩
instance : IntegerType UInt32 := ⟨fun v => v.toNat⟩
instance : IntegerType UInt64 := ⟨fun v => v.toNat⟩

namespace LogStream

def kSmallBuffer : ℕ := 4000

def kMaxNumSize : ℕ := 48

/-- "9876543210123456789" -/
def digits : List UInt8 :=
  [57, 56, 55, 54, 53, 52, 51, 50, 49, 48, 49, 50, 51, 52, 53, 54, 55, 56, 57]

/-- `zero[k]`, where `zero` is `digits+9`; `none` is outside of the table. -/
def zero (k : ℤ) : Option UInt8 := if 0 ≤ 9 + k then digits[(9 + k).toNat]? else none

/-- "0123456789ABCDEF" -/
def digitsHex : List UInt8 :=
  [48, 49, 50, 51, 52, 53, 54, 55, 56, 57, 65, 66, 67, 68, 69, 70]

section Convert

variable {T : Type} [IntegerType T] [Div T] [Mod T] [LT T] [DecidableEq T] [DecidableLT T]
  [OfNat T 0] [OfNat T 10]

/-- The loop of `convert`: the digits in the order in which it writes them. `none` also
stands for a loop that goes on for more than `fuel` rounds. -/
def convertLoop : ℕ → T → Option (List UInt8)
  | 0, _ => none
  | fuel + 1, i => do
    let c ← zero (toInt (i % 10))
    let i := i / 10
    if i ≠ 0 then return c :: (← convertLoop fuel i) else return [c]

/-- `convert`: the bytes from `buf` on, and the length it returns. A round makes the
number smaller. -/
def convert (value : T) : Option (List UInt8 × ℕ) := do
  let p ← convertLoop ((toInt value).natAbs + 1) value
  let p := if value < 0 then p ++ [45] else p
  return (p.reverse ++ [0], p.length)

end Convert

/-- The loop of `convert_hex`. -/
def convertHexLoop : ℕ → UInt64 → Option (List UInt8)
  | 0, _ => none
  | fuel + 1, i => do
    let lsd := (i % 16).toNat
    let i := i / 16
    let c ← digitsHex[lsd]?
    if i ≠ 0 then return c :: (← convertHexLoop fuel i) else return [c]

/-- `convert_hex` of a `uintptr_t`; it writes no NUL. -/
def convertHex (value : UInt64) : Option (List UInt8 × ℕ) := do
  let p ← convertHexLoop (value.toNat + 1) value
  return (p.reverse, p.length)

end LogStream

/-- `FixBuffer<SIZE>` with its array: `m_data`, and `m_cur` as an index into it. -/
structure RawBuffer (size : ℕ) where
  data : List UInt8
  cur : ℕ
  whole : data.length = size

namespace RawBuffer

variable {size : ℕ}

def new (memory : Vector UInt8 size) : RawBuffer size := ⟨memory.toList, 0, memory.length_toList⟩

variable (b : RawBuffer size)

def length : ℕ := b.cur

def avail : ℤ := size - b.cur

def content : List UInt8 := Window.window b.data 0 b.cur

def write (pos : ℕ) (bytes : List UInt8) : Except Abort (RawBuffer size) :=
  if h : pos + bytes.length ≤ size then
    .ok { b with data := Window.overwrite b.data pos bytes
                 whole := (Window.length_overwrite (h.trans_eq b.whole.symm)).trans b.whole }
  else .error (.badPointer "m_data + SIZE")

def add (len : ℕ) : RawBuffer size := { b with cur := b.cur + len }

def append (buf : List UInt8) : Except Abort (RawBuffer size) := do
  if sizeOfInt b.avail > buf.length then
    let b ← b.write b.cur buf
    return b.add buf.length
  else return b

def reset : RawBuffer size := { b with cur := 0 }

end RawBuffer

/-- A `const char *` that is not null: the memory from it on. -/
structure CStr where
  mem : List UInt8
  terminated : 0 ∈ mem

/-- What can be inserted into a stream. -/
inductive Piece
  | bool (v : Bool)
  | short (v : Int16)
  | ushort (v : UInt16)
  | int (v : Int32)
  | uint (v : UInt32)
  | ulong (v : UInt64)
  | ulonglong (v : UInt64)
  | pointer (p : UInt64)
  | char (v : UInt8)
  | cstr (str : Option CStr)
  | string (v : List UInt8)
  | stringPiece (v : List UInt8)
  | buffer (v : FixBuffer LogStream.kSmallBuffer)

namespace LogStream

abbrev Buffer := RawBuffer kSmallBuffer

def formatInteger {T : Type} [IntegerType T] [Div T] [Mod T] [LT T] [DecidableEq T] [DecidableLT T]
    [OfNat T 0] [OfNat T 10] (b : Buffer) (v : T) : Except Abort Buffer := do
  if b.avail ≥ kMaxNumSize then
    let (bytes, len) ← deref (convert v) "convert"
    let b ← b.write b.cur bytes
    return b.add len
  else return b

/-- `operator<<(const void *)`, whose `return` stands inside the `if`. -/
def insertPointer (b : Buffer) (v : UInt64) : Except Abort Buffer := do
  if b.avail ≥ kMaxNumSize then
    let b ← b.write b.cur [48, 120]
    let (bytes, len) ← deref (convertHex v) "convert_hex"
    let b ← b.write (b.cur + 2) bytes
    return b.add (len + 2)
  else missingReturn none "operator<<(const void *)"

/-- `operator<<`, for each type. -/
def insert (b : Buffer) : Piece → Except Abort Buffer
  | .bool v => b.append (if v then [49] else [48])
  | .short v => formatInteger b v.toInt32
  | .ushort v => formatInteger b v.toUInt32
  | .int v => formatInteger b v
  | .uint v => formatInteger b v
  | .ulong v => formatInteger b v
  | .ulonglong v => formatInteger b v
  | .pointer p => insertPointer b p
  | .char v => b.append [v]
  | .cstr (some str) => do
    let text ← deref (CString.str str.mem) "strlen"
    b.append text
  | .cstr none => b.append [40, 110, 117, 108, 108, 41]
  | .string v => b.append v
  | .stringPiece v => b.append v
  | .buffer v => b.append v.data

end LogStream

end Czy
