import Czy.Spec.Fault
import Mathlib.Data.List.Basic

/-! base/log_file.cpp, with the `AppendFile` of base/file_util.cpp, without stream errors. A
file holds what its stream has been given; a flush adds nothing to that. Each reading of the
clock is part of the operation that makes it. -/

namespace Czy

/-- `FileUtil::AppendFile`, with the clock reading in its name. -/
structure AppendFile where
  name : String
  openedAt : ℤ
  content : List UInt8
  writeBytes : ℤ
  deriving DecidableEq, Repr

namespace AppendFile

def new (name : String) (openedAt : ℤ) : AppendFile := ⟨name, openedAt, [], 0⟩

/-- The loop of `append`, with what is still to be written. `writes` are the counts of the
calls of `write` that write less than that; the one behind them writes it all. -/
def appendLoop (content : List UInt8) (written : ℕ) : List UInt8 → List ℕ → List UInt8 × ℕ
  | [], _ => (content, written)
  | rest, [] => (content ++ rest, written + rest.length)
  | rest, n :: writes =>
    appendLoop (content ++ rest.take n) (written + (rest.take n).length) (rest.drop n) writes

def append (file : AppendFile) (logline : List UInt8) (writes : List ℕ) : AppendFile :=
  let (content, written) := appendLoop file.content 0 logline writes
  { file with content := content, writeBytes := file.writeBytes + written }

end AppendFile

/-- `closed` are the earlier files, and `lines` the lines given to `append`; both are history. -/
structure LogFile where
  basename : String
  rollSize : ℤ
  flushInterval : ℤ
  checkEveryN : ℤ
  count : ℤ
  startOfPeriod : ℤ
  lastRoll : ℤ
  lastFlush : ℤ
  file : Option AppendFile
  closed : List AppendFile
  lines : List (List UInt8)
  deriving DecidableEq, Repr

/-- `now` is the first reading of the clock in an `append`, and `nowRoll` that of `roll_file`
behind it. -/
inductive LogFileOp
  | append (logline : List UInt8) (writes : List ℕ) (now nowRoll : ℤ)
  | flush
  | rollFile (now : ℤ)
  deriving DecidableEq, Repr

namespace LogFile

def kRollPerSeconds : ℤ := 60 * 60 * 24

def periodOf (now : ℤ) : ℤ := now.tdiv kRollPerSeconds * kRollPerSeconds

/- strftime of gmtime_r, and the host and process. -/
variable (timeText : ℤ → String) (hostname : String) (pid : ℕ)

def getLogFilename (basename : String) (now : ℤ) : String :=
  basename ++ timeText now ++ hostname ++ "." ++ toString pid ++ ".log"

def rollFile (l : LogFile) (now : ℤ) : LogFile × Bool :=
  let fileName := getLogFilename timeText hostname pid l.basename now
  let start := periodOf now
  if now > l.lastRoll then
    ({ l with
      lastRoll := now
      lastFlush := now
      startOfPeriod := start
      file := some (AppendFile.new fileName now)
      closed := l.closed ++ l.file.toList }, true)
  else (l, false)

def create (basename : String) (rollSize flushInterval checkEveryN now : ℤ) :
    Except Abort LogFile := do
  check ('/' ∉ basename.toList) "basename.find('/') == string::npos"
  let l : LogFile := ⟨basename, rollSize, flushInterval, checkEveryN, 0, 0, 0, 0, none, [], []⟩
  return (l.rollFile timeText hostname pid now).1

def appendUnlocked (l : LogFile) (logline : List UInt8) (writes : List ℕ) (now nowRoll : ℤ) :
    Except Abort LogFile := do
  let file ← deref l.file "m_file"
  let file := file.append logline writes
  let l := { l with file := some file, lines := l.lines ++ [logline] }
  if file.writeBytes > l.rollSize then
    return (l.rollFile timeText hostname pid now).1
  else
    let l := { l with count := l.count + 1 }
    if l.count ≥ l.checkEveryN then
      let l := { l with count := 0 }
      if periodOf now ≠ l.startOfPeriod then
        return (l.rollFile timeText hostname pid nowRoll).1
      else if now - l.lastFlush > l.flushInterval then
        return { l with lastFlush := now }
      else return l
    else return l

def flush (l : LogFile) : Except Abort LogFile := do
  let _ ← deref l.file "m_file"
  return l

def step (l : LogFile) : LogFileOp → Except Abort LogFile
  | .append logline writes now nowRoll => l.appendUnlocked timeText hostname pid logline writes now nowRoll
  | .flush => l.flush
  | .rollFile now => .ok (l.rollFile timeText hostname pid now).1

def files (l : LogFile) : List AppendFile := l.closed ++ l.file.toList

end LogFile

end Czy
