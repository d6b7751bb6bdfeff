import Czy.Spec.LogFile

/-! `FileUtil::AppendFile` of base/file_util.cpp on a stream that may fail. The loop of
`append` goes on for as long as the stream takes nothing and has no error. -/

namespace Czy

/-- A call of `fwrite_unlocked`, which takes no more than it is offered, and `ferror` behind it. -/
structure Fwrite where
  taken : ℕ
  error : Bool
  deriving DecidableEq, Repr

/-- A line, and the calls of `fwrite_unlocked` that `append` makes for it. -/
structure AppendCall where
  logline : List UInt8
  writes : List Fwrite
  deriving DecidableEq, Repr

namespace AppendFile

/-- The loop of `append`, with what is still to be written; `none` where the calls are not yet
all. A short call with an error leaves the loop before its bytes are counted. -/
def appendLoopErr (content : List UInt8) (written : ℕ) :
    List UInt8 → List Fwrite → Option (List UInt8 × ℕ)
  | [], _ => some (content, written)
  | _ :: _, [] => none
  | c :: rest, write :: writes =>
    let remain := c :: rest
    let n := min write.taken remain.length
    let content := content ++ remain.take n
    if n ≠ remain.length ∧ write.error then some (content, written)
    else appendLoopErr content (written + n) (remain.drop n) writes

/-- `append` once it returns. -/
def appendErr (file : AppendFile) (call : AppendCall) : Except Unit AppendFile :=
  match appendLoopErr file.content 0 call.logline call.writes with
  | none => .error ()
  | some (content, written) =>
    .ok { file with content := content, writeBytes := file.writeBytes + written }

end AppendFile

end Czy
