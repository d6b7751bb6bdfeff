import Czy.Lib.Search
import Czy.Spec.Buffer

/-! The functions of net/buffer.h that take or return a pointer into the readable bytes. -/

namespace Czy.Net.Buffer

open Window

def kCRLF : List UInt8 := [13, 10]

/-- `std::search` in [first, last). -/
def search (b : Buffer) (first last : ℕ) (pat : List UInt8) : ℕ :=
  first + Search.search pat (window b.buffer first last)

def memchr (b : Buffer) (first : ℕ) (c : UInt8) (n : ℕ) : Option ℕ :=
  ((window b.buffer first (first + n)).idxOf? c).map fun i => first + i

def findCRLF (b : Buffer) : Option ℕ :=
  let crlf := b.search b.peek b.beginWriteConst kCRLF
  if crlf = b.beginWriteConst then none else some crlf

def findCRLFFrom (b : Buffer) (start : ℕ) : Except Fault (Option ℕ) := do
  require (b.peek ≤ start) "peek() <= start"
  require (start ≤ b.beginWriteConst) "start <= beginWrite()"
  let crlf := b.search start b.beginWriteConst kCRLF
  return if crlf = b.beginWriteConst then none else some crlf

def findEOL (b : Buffer) : Option ℕ := b.memchr b.peek 10 b.readableBytes

/-- Not a const function: `beginWrite` is the non-const one. -/
def findEOLFrom (b : Buffer) (start : ℕ) : Except Fault (Option ℕ) := do
  require (start < b.beginWrite) "start < beginWrite()"
  require (b.peek ≤ start) "start >= peek()"
  return b.memchr start 10 (b.beginWrite - start)

/-- Nor is this one const. -/
def retriveUntil (b : Buffer) (last : ℕ) : Except Fault Buffer := do
  require (b.peek ≤ last) "peek() <= end"
  require (last ≤ b.beginWrite) "end<= beginWrite()"
  b.retrive (last - b.peek)

end Czy.Net.Buffer
