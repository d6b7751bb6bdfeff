import Czy.Spec.BufferSearch

/-! Input that is read line by line: `readFd` of net/buffer.cpp, and `findCRLF`,
`retriveAsString` and `retrive` of net/buffer.h as a message callback calls them. -/

namespace Czy.Net

/-- The line before the first CRLF is taken out of the buffer, and the CRLF with it. -/
def Buffer.takeLine (b : Buffer) : Except Fault (Option (List UInt8) × Buffer) :=
  match b.findCRLF with
  | none => .ok (none, b)
  | some crlf => do
    let (line, b) ← b.retriveAsString (crlf - b.peek)
    let b ← b.retrive kCRLF.length
    return (some line, b)

/-- `received` is all that `readv` has delivered, and `lines` those taken; both are history. -/
structure LineInput where
  buffer : Buffer
  received : List UInt8
  lines : List (List UInt8)
  deriving DecidableEq, Repr

/-- `r` is what `readv` does. -/
inductive LineOp
  | readFd (r : Except ℤ (List UInt8))
  | takeLine

namespace LineInput

def new (initsize : ℕ) : LineInput := ⟨.new initsize, [], []⟩

def step (s : LineInput) : LineOp → Except Fault LineInput
  | .readFd r => do
    let (buffer, n, _) ← s.buffer.readFd r 0
    let bytes := match r with
      | .ok offered => offered.take n.toNat
      | .error _ => []
    return { s with buffer := buffer, received := s.received ++ bytes }
  | .takeLine => do
    let (line, buffer) ← s.buffer.takeLine
    return { s with buffer := buffer, lines := s.lines ++ line.toList }

/-- What is received at a time fits behind the readable bytes. -/
def Fits (s : LineInput) : LineOp → Prop
  | .readFd (.ok offered) => offered.length ≤ s.buffer.writeableBytes
  | .readFd (.error _) => True
  | .takeLine => True

instance (s : LineInput) (o : LineOp) : Decidable (s.Fits o) :=
  match o with
  | .readFd (.ok _) => inferInstanceAs (Decidable (_ ≤ _))
  | .readFd (.error _) => .isTrue trivial
  | .takeLine => .isTrue trivial

end LineInput

end Czy.Net
