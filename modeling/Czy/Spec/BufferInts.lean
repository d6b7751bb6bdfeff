import Czy.Lib.ByteOrder
import Czy.Spec.Buffer

/-! net/endian.h, and the functions of net/buffer.h on integers of a fixed width. An integer
is its bits in two's complement. -/

namespace Czy.Net

open ByteOrder Window

/-! `htobe` and `betoh` on a machine that stores the least significant byte first. -/

def hostToNetwork64 (host64 : BitVec 64) : BitVec 64 := swapBytes (w := 8) host64

def hostToNetwork32 (host32 : BitVec 32) : BitVec 32 := swapBytes (w := 4) host32

def hostToNetwork16 (host16 : BitVec 16) : BitVec 16 := swapBytes (w := 2) host16

def networkToHost64 (net64 : BitVec 64) : BitVec 64 := swapBytes (w := 8) net64

def networkToHost32 (net32 : BitVec 32) : BitVec 32 := swapBytes (w := 4) net32

def networkToHost16 (net16 : BitVec 16) : BitVec 16 := swapBytes (w := 2) net16

namespace Buffer

/-- `append(&be, sizeof be)` of the converted integer. -/
def appendInt (w : ℕ) (convert : BitVec (8 * w) → BitVec (8 * w)) (b : Buffer) (x : BitVec (8 * w)) :
    Except Fault Buffer :=
  b.append (memory (convert x))

def appendInt64 (b : Buffer) (x : BitVec 64) : Except Fault Buffer := b.appendInt 8 hostToNetwork64 x

def appendInt32 (b : Buffer) (x : BitVec 32) : Except Fault Buffer := b.appendInt 4 hostToNetwork32 x

def appendInt16 (b : Buffer) (x : BitVec 16) : Except Fault Buffer := b.appendInt 2 hostToNetwork16 x

def appendInt8 (b : Buffer) (x : BitVec 8) : Except Fault Buffer := b.appendInt 1 id x

/-- The assertion, and `memcpy` from `peek()`. -/
def peekInt (w : ℕ) (cond : String) (convert : BitVec (8 * w) → BitVec (8 * w)) (b : Buffer) :
    Except Fault (BitVec (8 * w)) := do
  require (w ≤ b.readableBytes) cond
  return convert (ofMemory w (window b.buffer b.peek (b.peek + w)))

def peekInt64 (b : Buffer) : Except Fault (BitVec 64) :=
  b.peekInt 8 "readableBytes() >= sizeof(int64_t)" networkToHost64

def peekInt32 (b : Buffer) : Except Fault (BitVec 32) :=
  b.peekInt 4 "readableBytes() >= sizeof(int32_t)" networkToHost32

def peekInt16 (b : Buffer) : Except Fault (BitVec 16) :=
  b.peekInt 2 "readableBytes() >= sizeof(int16_t)" networkToHost16

def peekInt8 (b : Buffer) : Except Fault (BitVec 8) :=
  b.peekInt 1 "readableBytes() >= sizeof(int8_t)" id

def retriveInt64 (b : Buffer) : Except Fault Buffer := b.retrive 8

def retriveInt32 (b : Buffer) : Except Fault Buffer := b.retrive 4

def retriveInt16 (b : Buffer) : Except Fault Buffer := b.retrive 2

def retriveInt8 (b : Buffer) : Except Fault Buffer := b.retrive 1

/-- The integer is taken before its bytes are dropped. -/
def readInt {α : Type} (peek : Buffer → Except Fault α) (retrive : Buffer → Except Fault Buffer)
    (b : Buffer) : Except Fault (α × Buffer) := do
  let result ← peek b
  let b' ← retrive b
  return (result, b')

def readInt64 (b : Buffer) : Except Fault (BitVec 64 × Buffer) := b.readInt peekInt64 retriveInt64

def readInt32 (b : Buffer) : Except Fault (BitVec 32 × Buffer) := b.readInt peekInt32 retriveInt32

def readInt16 (b : Buffer) : Except Fault (BitVec 16 × Buffer) := b.readInt peekInt16 retriveInt16

def readInt8 (b : Buffer) : Except Fault (BitVec 8 × Buffer) := b.readInt peekInt8 retriveInt8

/-- `prepend` asserts that there is room in front, and does nothing with it. -/
def prepend (b : Buffer) (data : List UInt8) : Except Fault Buffer := do
  require (data.length ≤ b.prependableBytes) "len <= prependableBytes()"
  return b

/-- `prepend(&be, sizeof be)` of the converted integer. -/
def prependInt (w : ℕ) (convert : BitVec (8 * w) → BitVec (8 * w)) (b : Buffer)
    (x : BitVec (8 * w)) : Except Fault Buffer :=
  b.prepend (memory (convert x))

def prependInt64 (b : Buffer) (x : BitVec 64) : Except Fault Buffer := b.prependInt 8 hostToNetwork64 x

def prependInt32 (b : Buffer) (x : BitVec 32) : Except Fault Buffer := b.prependInt 4 hostToNetwork32 x

def prependInt16 (b : Buffer) (x : BitVec 16) : Except Fault Buffer := b.prependInt 2 hostToNetwork16 x

def prependInt8 (b : Buffer) (x : BitVec 8) : Except Fault Buffer := b.prependInt 1 id x

end Buffer

end Czy.Net
