import Czy.Spec.Fault

/-! base/asynclog.cpp: `append` and the back end `thread_func` of the asynchronous log,
cut into steps where the other threads can come in between. A moved-from or reset
`unique_ptr` is `none`. -/

namespace Czy

def kLargeBuffer : ℕ := 4000 * 1000

/-- `FixBuffer<SIZE>`: the bytes before `m_cur`. -/
structure FixBuffer (size : ℕ) where
  data : List UInt8
  inside : data.length ≤ size
  deriving DecidableEq, Repr

namespace FixBuffer

variable {size : ℕ}

def new : FixBuffer size := ⟨[], Nat.zero_le _⟩

def length (b : FixBuffer size) : ℕ := b.data.length

def avail (b : FixBuffer size) : ℕ := size - b.data.length

def append (b : FixBuffer size) (buf : List UInt8) : FixBuffer size :=
  if h : b.avail > buf.length then
    ⟨b.data ++ buf, by rw [List.length_append]; unfold avail at h; omega⟩
  else b

/-- A piece is kept whole, or left out. -/
theorem append_data (b : FixBuffer size) (buf : List UInt8) :
    (b.append buf).data = b.data ++ if buf.length < b.avail then buf else [] := by
  unfold append
  split
  · rfl
  · exact (List.append_nil _).symm

end FixBuffer

/-- What `output` was given: the bytes of a buffer, or the message about dropped ones.
A dropped buffer is history: its bytes were not given to it. -/
inductive Chunk
  | buffer (data : List UInt8)
  | message (text : String)
  | dropped (data : List UInt8)
  deriving DecidableEq, Repr

/-- Where the back end is: at the test of the loop, before its locked section, in
`wait_for_seconds`, behind the locked section or returned. -/
inductive BackEnd
  | top | lock | waiting | unlocked | returned
  deriving DecidableEq, Repr

abbrev BufferPtr := Option (FixBuffer kLargeBuffer)

/-- `appended` are the bytes of all lines, `atLock` those of the lines before the last
locked section of the back end: both are history. -/
structure AsyncLogging where
  running : Bool
  currentBuffer : BufferPtr
  nextBuffer : BufferPtr
  buffers : List BufferPtr
  newBufferPtr1 : BufferPtr
  newBufferPtr2 : BufferPtr
  buffersToWrites : List BufferPtr
  output : List Chunk
  position : BackEnd
  appended : List UInt8
  atLock : List UInt8
  deriving DecidableEq, Repr

inductive LoggingOp
  | append (logline : List UInt8)
  | backEnd (stamp : String)
  | stop

namespace AsyncLogging

/-- After `start`, with the back end before its loop. -/
def new : AsyncLogging where
  running := true
  currentBuffer := some .new
  nextBuffer := some .new
  buffers := []
  newBufferPtr1 := some .new
  newBufferPtr2 := some .new
  buffersToWrites := []
  output := []
  position := .top
  appended := []
  atLock := []

def append (l : AsyncLogging) (logline : List UInt8) : Except Abort AsyncLogging := do
  let current ← deref l.currentBuffer "m_current_buffer"
  if current.avail > logline.length then
    return { l with currentBuffer := some (current.append logline), appended := l.appended ++ logline }
  else
    let fresh := l.nextBuffer.getD .new
    return { l with buffers := l.buffers ++ [l.currentBuffer], nextBuffer := none,
                    currentBuffer := some (fresh.append logline), appended := l.appended ++ logline }

def exchange (l : AsyncLogging) : AsyncLogging :=
  { l with
    buffers := l.buffers ++ [l.currentBuffer]
    currentBuffer := l.newBufferPtr1
    newBufferPtr1 := none
    nextBuffer := l.nextBuffer.or l.newBufferPtr2
    newBufferPtr2 := if l.nextBuffer.isNone then none else l.newBufferPtr2
    position := .unlocked
    atLock := l.appended }

def writeOut : List BufferPtr → Except Abort (List Chunk)
  | [] => .ok []
  | buf :: rest => do
    let b ← deref buf "buf"
    let chunks ← writeOut rest
    return .buffer b.data :: chunks

/-- The message is cut to the buffer of `snprintf`. -/
def dropMessage (stamp : String) (n : ℕ) : String :=
  String.ofList (("Dropped log message at " ++ stamp ++ " ," ++ toString n ++
    " large buffers\n").toList.take 255)

/-- The refill of a spare buffer. The buffer moved out of the back of the vector is
destroyed by `reset()` of its `unique_ptr`. -/
def refill (ptr : BufferPtr) (bufs : List BufferPtr) :
    Except Abort (BufferPtr × List BufferPtr) := do
  if ptr.isNone then
    check (bufs ≠ []) "!buffers_to_writes.empty()"
    return (none, bufs.dropLast)
  else
    return (ptr, bufs)

/-- The iteration behind its locked section. -/
def writeSection (l : AsyncLogging) (stamp : String) : Except Abort AsyncLogging := do
  check (l.buffers ≠ []) "!m_buffers.empty()"
  let tooMany := l.buffersToWrites.length > 25
  let message := if tooMany then [.message (dropMessage stamp (l.buffersToWrites.length - 2))] else []
  let dropped := if tooMany then l.buffersToWrites.drop 2 else []
  let kept := if tooMany then l.buffersToWrites.take 2 else l.buffersToWrites
  let written ← writeOut kept
  let (ptr1, bufs) ← refill l.newBufferPtr1 (kept.take 2)
  let (ptr2, _) ← refill l.newBufferPtr2 bufs
  return { l with
    newBufferPtr1 := ptr1
    newBufferPtr2 := ptr2
    buffersToWrites := []
    output := l.output ++ message ++ written ++
      dropped.map fun buf => .dropped ((buf.map FixBuffer.data).getD [])
    position := .top }

def backEnd (l : AsyncLogging) (stamp : String) : Except Abort AsyncLogging :=
  match l.position with
  | .top =>
    if l.running then do
      check (l.newBufferPtr1.any fun b => b.length == 0)
        "new_buffer_ptr1 && new_buffer_ptr1->length()== 0"
      check (l.buffersToWrites = []) "buffers_to_writes.empty()"
      return { l with position := .lock }
    else .ok { l with position := .returned }
  | .lock => .ok (if l.buffers = [] then { l with position := .waiting } else l.exchange)
  | .waiting => .ok l.exchange
  | .unlocked => l.writeSection stamp
  | .returned => .ok l

def stop (l : AsyncLogging) : AsyncLogging := { l with running := false }

def step (l : AsyncLogging) : LoggingOp → Except Abort AsyncLogging
  | .append logline => l.append logline
  | .backEnd stamp => l.backEnd stamp
  | .stop => .ok l.stop

end AsyncLogging

end Czy
