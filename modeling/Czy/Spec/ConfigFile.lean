import Czy.Lib.CString
import Czy.Spec.Fault
import Mathlib.Data.UInt

/-! base/config_file_reader.cpp. A `char *` is the memory from it on; a `std::string` has
the bytes of the string it was made of. -/

namespace Czy

open CString

/-- `std::map<std::string, std::string>`, in the order of the bytes. -/
abbrev ConfigMap := Std.ExtTreeMap (List UInt8) (List UInt8)

structure ConfigureFileReader where
  loadOk : Bool
  configureMap : ConfigMap
  fileName : List UInt8

namespace ConfigureFileReader

def isBlank (c : UInt8) : Bool := c = 32 ∨ c = 9 ∨ c = 13

/-- `strlen`, with the string instead of its length. -/
def cString (text : List UInt8) : Except Abort (List UInt8) := deref (str text) "strlen"

/-- `trim_space`. The second loop sets `end_pos` to a null pointer and decrements that. -/
def trimSpace (text : List UInt8) : Except Abort (Option (List UInt8)) := do
  let startPos ← deref (skip isBlank text) "*start_pos"
  let rest ← cString startPos
  if rest.length = 0 then return none
  let whole ← cString text
  let last ← deref whole.getLast? "*end_pos"
  if isBlank last then .error (.badPointer "*end_pos")
  else
    let len : ℤ := (whole.length - 1 : ℤ) - (text.length - startPos.length : ℤ) + 1
    return if len ≤ 0 then none else some startPos

def parseLine (line : List UInt8) (m : ConfigMap) : Except Abort ConfigMap := do
  let found ← deref (chr 61 line) "strchr"
  let (before, behind) ← deref found "*p"
  let key ← trimSpace (before ++ 0 :: behind)
  let value ← trimSpace behind
  match key, value with
  | some key, some value => return m.insert (← cString key) (← cString value)
  | _, _ => return m

/-- `fgets(buf, 256, file_to_read)`: `buf` and what is left to read, or a null pointer. -/
def fgets (buf stream : List UInt8) : Option (List UInt8 × List UInt8) :=
  if stream = [] then none
  else
    let (text, rest) := line 10 255 stream
    some (text ++ 0 :: buf.drop (text.length + 1), rest)

/-- What the loop of `Load_file` does with a line in `buf`. -/
def handleLine (buf : List UInt8) (m : ConfigMap) : Except Abort (List UInt8 × ConfigMap) := do
  let _strLen ← cString buf
  let buf := if buf[255]? = some 10 then buf.set 255 0 else buf
  let ch ← deref (chr 35 buf) "strchr"
  let buf := match ch with
    | some (before, behind) => before ++ 0 :: behind
    | none => buf
  let text ← cString buf
  if text.length = 0 then return (buf, m)
  else return (buf, ← parseLine buf m)

/-- The loop of `Load_file`; every round reads a byte at least. -/
def loadLoop : ℕ → List UInt8 → List UInt8 → ConfigMap → Except Abort ConfigMap
  | 0, _, _, m => .ok m
  | n + 1, stream, buf, m =>
    match fgets buf stream with
    | none => .ok m
    | some (buf, stream) => do
      let (buf, m) ← handleLine buf m
      loadLoop n stream buf m

/-- `Load_file`: `file` is what `fopen` finds, `buf` what the stack holds before. -/
def loadFile (r : ConfigureFileReader) (file : Option (List UInt8)) (buf : List UInt8) :
    Except Abort ConfigureFileReader :=
  match file with
  | none => .ok r
  | some stream => do
    let m ← loadLoop (stream.length + 1) stream buf r.configureMap
    return { r with configureMap := m, loadOk := true }

/-- `snprintf(sz_pair, 128, "%s=%s", ...)` into the zeroed `sz_pair`. -/
def szPair (key value : List UInt8) : List UInt8 :=
  (key.takeWhile (· ≠ 0) ++ 61 :: value.takeWhile (· ≠ 0)).take 127

/-- The loop of `write_file`: what is in the file, and whether `fwrite` has written every
element. It takes `taken i` bytes of the i-th one. -/
def writeLoop (taken : ℕ → ℕ) : ℕ → List (List UInt8 × List UInt8) → List UInt8 × Bool
  | _, [] => ([], true)
  | i, (key, value) :: pairs =>
    if (szPair key value).length ≤ taken i then
      let (written, ret) := writeLoop taken (i + 1) pairs
      (szPair key value ++ written, ret)
    else ((szPair key value).take (taken i), false)

/-- `write_file`: what it returns, and what is in the file afterwards. -/
def writeFile (r : ConfigureFileReader) (opened : Bool) (taken : ℕ → ℕ) : ℤ × Option (List UInt8) :=
  if opened then
    match writeLoop taken 0 r.configureMap.toList with
    | (written, true) => (-1, some written)
    | (written, false) => (-1, some written)
  else (-1, none)

end ConfigureFileReader

end Czy
