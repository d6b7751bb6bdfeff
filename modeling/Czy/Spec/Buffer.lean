import Czy.Lib.Window
import Czy.Spec.Fault

/-! net/buffer.h and net/buffer.cpp. A pointer into the buffer is its offset
from `begin()`. -/

namespace Czy.Net

open Window

/-- The members of class Buffer; `buffer` holds the elements of the vector. -/
structure Buffer where
  buffer : List UInt8
  readIndex : ℕ
  writeIndex : ℕ
  deriving DecidableEq, Repr

namespace Buffer

def kCheapPrepend : ℕ := 8

def kInittialSize : ℕ := 1024

/-- The constructor; `vector(n)` zeroes its elements. -/
def new (initsize : ℕ) : Buffer where
  buffer := List.replicate (kCheapPrepend + initsize) 0
  readIndex := kCheapPrepend
  writeIndex := kCheapPrepend

def readableBytes (b : Buffer) : ℕ := b.writeIndex - b.readIndex

def writeableBytes (b : Buffer) : ℕ := b.buffer.length - b.writeIndex

def prependableBytes (b : Buffer) : ℕ := b.readIndex

def peek (b : Buffer) : ℕ := b.readIndex

/-- The non-const `beginWrite`, which `append` calls: it adds `readIndex_`. -/
def beginWrite (b : Buffer) : ℕ := b.readIndex

/-- The const `beginWrite`, which the searches call. -/
def beginWriteConst (b : Buffer) : ℕ := b.writeIndex

def readable (b : Buffer) : List UInt8 := window b.buffer b.readIndex b.writeIndex

def hasWritten (b : Buffer) (len : ℕ) : Except Fault Buffer := do
  require (len ≤ b.writeableBytes) "len <= writeableBytes()"
  return { b with writeIndex := b.writeIndex + len }

def unwrite (b : Buffer) (len : ℕ) : Except Fault Buffer := do
  require (len ≤ b.readableBytes) "len <= readableBytes()"
  return { b with writeIndex := b.writeIndex - len }

def retriveAll (b : Buffer) : Buffer :=
  { b with readIndex := kCheapPrepend, writeIndex := kCheapPrepend }

def retrive (b : Buffer) (len : ℕ) : Except Fault Buffer := do
  require (len ≤ b.readableBytes) "len <= readableBytes()"
  return if len < b.readableBytes then { b with readIndex := b.readIndex + len } else b.retriveAll

/-- The string is copied from `peek()` before the bytes are dropped. -/
def retriveAsString (b : Buffer) (len : ℕ) : Except Fault (List UInt8 × Buffer) := do
  require (len ≤ b.readableBytes) "len <= readableBytes()"
  let result := window b.buffer b.peek (b.peek + len)
  let b' ← b.retrive len
  return (result, b')

def retriveAllAsString (b : Buffer) : Except Fault (List UInt8 × Buffer) :=
  b.retriveAsString b.readableBytes

/-- `vector::reserve` changes the capacity, never the elements. -/
def reserve (v : List UInt8) (_ : ℕ) : List UInt8 := v

def makeSpace (b : Buffer) (len : ℕ) : Except Fault Buffer :=
  if b.writeableBytes + b.prependableBytes < sizeT (len + kCheapPrepend) then
    .ok { b with buffer := reserve b.buffer (b.writeIndex + len) }
  else do
    require (kCheapPrepend < b.readIndex) "kCheapPrepend < readIndex_"
    let b' : Buffer :=
      { buffer := overwrite b.buffer kCheapPrepend (window b.buffer b.readIndex b.writeIndex)
        readIndex := kCheapPrepend
        writeIndex := kCheapPrepend + b.readableBytes }
    require (b.readableBytes = b'.readableBytes) "readable == readableBytes()"
    return b'

/-- `makeSpace` with `std::copy` as it runs on one vector: in place, element by element. -/
def makeSpaceInPlace (b : Buffer) (len : ℕ) : Except Fault Buffer :=
  if b.writeableBytes + b.prependableBytes < sizeT (len + kCheapPrepend) then
    .ok { b with buffer := reserve b.buffer (b.writeIndex + len) }
  else do
    require (kCheapPrepend < b.readIndex) "kCheapPrepend < readIndex_"
    let b' : Buffer :=
      { buffer := copyForward b.buffer b.readIndex kCheapPrepend (b.writeIndex - b.readIndex)
        readIndex := kCheapPrepend
        writeIndex := kCheapPrepend + b.readableBytes }
    require (b.readableBytes = b'.readableBytes) "readable == readableBytes()"
    return b'

def ensureWriteableBytes (b : Buffer) (len : ℕ) : Except Fault Buffer := do
  let b' ← if b.writeableBytes < len then b.makeSpace len else .ok b
  require (len ≤ b'.writeableBytes) "writeableBytes() >= len"
  return b'

/-- `append(data, len)`, `data` being the memory from the pointer on. The call
of `beginWrite` is the non-const one, `this` being non-const. -/
def appendPtr (b : Buffer) (data : List UInt8) (len : ℕ) : Except Fault Buffer := do
  let b' ← b.ensureWriteableBytes len
  hasWritten { b' with buffer := overwrite b'.buffer b'.beginWrite (data.take len) } len

/-- `append` of a whole byte string. -/
def append (b : Buffer) (data : List UInt8) : Except Fault Buffer :=
  b.appendPtr data data.length

/-- `toStringPiece`: the bytes, and their number as an `int`. -/
def toStringPiece (b : Buffer) : List UInt8 × ℤ := (b.readable, intOfSize b.readableBytes)

/-- The new buffer takes the place of the old one by the final `swap`. -/
def shirnk (b : Buffer) (reserve : ℕ) : Except Fault Buffer := do
  let other ← (new kInittialSize).ensureWriteableBytes (sizeT (b.readableBytes + reserve))
  other.appendPtr b.toStringPiece.1 (sizeOfInt b.toStringPiece.2)

/-- `swap(rhs)`: the two objects afterwards, `*this` first. -/
def swap (b rhs : Buffer) : Buffer × Buffer := (rhs, b)

/-- `readFd`. `r` is what `readv` did: an errno, or the bytes it offered, of which
the two segments take what fits. The result is the buffer, the return value
and `*savedErrorno`. -/
def readFd (b : Buffer) (r : Except ℤ (List UInt8)) (savedErrorno : ℤ) :
    Except Fault (Buffer × ℤ × ℤ) :=
  let writeable := b.writeableBytes
  let capacity := if writeable < 65536 then writeable + 65536 else writeable
  match r with
  | .error errno => .ok (b, -1, errno)
  | .ok offered =>
    let bytes := offered.take capacity
    let filled := { b with buffer := overwrite b.buffer b.writeIndex (bytes.take writeable) }
    if bytes.length ≤ writeable then
      .ok ({ filled with writeIndex := b.writeIndex + bytes.length }, bytes.length, savedErrorno)
    else do
      let b' ← append { filled with writeIndex := filled.buffer.length } (bytes.drop writeable)
      return (b', bytes.length, savedErrorno)

/-- The indices stay in order, and inside the vector. -/
structure Inv (b : Buffer) : Prop where
  prepend : kCheapPrepend ≤ b.readIndex
  order : b.readIndex ≤ b.writeIndex
  bound : b.writeIndex ≤ b.buffer.length

end Buffer

end Czy.Net
