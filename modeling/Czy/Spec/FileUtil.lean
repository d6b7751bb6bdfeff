import Czy.Spec.Fault
import Mathlib.Data.List.Basic

/-! `FileUtil::ReadSmallFile` of base/file_util.cpp, and `read_file`. What the system calls do
is given: `open` and `fstat` by their results, each call of `read` by how much it delivers or
by its errno. -/

namespace Czy.FileUtil

/-- A call of `read` delivers `k + 1` bytes, or as many of them as are asked for and there; or it
fails. -/
inductive ReadOutcome
  | got (k : ℕ)
  | failed (errno : ℤ)
  deriving DecidableEq, Repr

/-- `read` with the bytes behind the file offset: what it delivers, nothing only at the end of the
file, and what is then behind the offset. -/
def read (rest : List UInt8) (toRead : ℕ) : ReadOutcome → Except ℤ (List UInt8 × List UInt8)
  | .got k => .ok (rest.take (min (k + 1) toRead), rest.drop (min (k + 1) toRead))
  | .failed errno => .error errno

inductive FileType
  | regular
  | directory
  | other
  deriving DecidableEq, Repr

structure Stat where
  type : FileType
  size : ℤ
  mtime : ℤ
  ctime : ℤ
  deriving DecidableEq, Repr

/-- A file that is open for reading, with its bytes and the result of `fstat`. -/
structure OpenFile where
  bytes : List UInt8
  fstat : Except ℤ Stat

/-- A negative `m_fd` is `none`. -/
structure ReadSmallFile where
  fd : Option OpenFile
  err : ℤ

/-- What the pointers passed to `read_to_string` point to; `NULL` is `none`. -/
structure Pointers where
  fileSize : Option ℤ
  modifyTime : Option ℤ
  createTime : Option ℤ
  deriving DecidableEq, Repr

/-- The return value and what the pointers point to then; `delivered` are the bytes that each
call of `read` has delivered, and is history. -/
structure ReadToString where
  err : ℤ
  content : List UInt8
  pointers : Pointers
  delivered : List (List UInt8)
  deriving DecidableEq, Repr

def kBuffSize : ℕ := 64 * 1024

def eISDIR : ℤ := 21

namespace ReadSmallFile

/-- The constructor, with what `open` returns. -/
def create : Except ℤ OpenFile → ReadSmallFile
  | .ok file => ⟨some file, 0⟩
  | .error errno => ⟨none, errno⟩

def stat (file : OpenFile) (err : ℤ) (p : Pointers) : ℤ × Pointers :=
  if p.fileSize.isSome then
    match file.fstat with
    | .ok statbuf =>
      (if statbuf.type = .directory then eISDIR else err,
        { fileSize := if statbuf.type = .regular then some statbuf.size else p.fileSize
          modifyTime := p.modifyTime.map fun _ => statbuf.mtime
          createTime := p.createTime.map fun _ => statbuf.ctime })
    | .error errno => (errno, p)
  else (err, p)

/-- The loop, with the number of the next call of `read`; `none` where it has not ended. -/
def readLoop (reads : ℕ → ReadOutcome) (maxSize : ℕ) :
    ℕ → List UInt8 → ReadToString → Option ReadToString
  | 0, _, _ => none
  | fuel + 1, rest, r =>
    if r.content.length < maxSize then
      let toRead := min (maxSize - r.content.length) kBuffSize
      match read rest toRead (reads r.delivered.length) with
      | .error errno => some { r with err := errno }
      | .ok (data, rest) =>
        if data = [] then some r
        else readLoop reads maxSize fuel rest
          { r with content := r.content ++ data, delivered := r.delivered ++ [data] }
    else some r

def readToString (f : ReadSmallFile) (reads : ℕ → ReadOutcome) (fuel : ℕ) (maxSize : ℤ)
    (content : List UInt8) (p : Pointers) : Option ReadToString :=
  match f.fd with
  | none => some ⟨f.err, content, p, []⟩
  | some file =>
    let (err, p) := stat file f.err p
    readLoop reads (sizeOfInt maxSize) fuel file.bytes ⟨err, [], p, []⟩

/-- The return value of `read_to_buffer`, what `size` points to and `m_buf` then. -/
structure ReadToBuffer where
  err : ℤ
  size : Option ℤ
  buf : List UInt8
  deriving DecidableEq, Repr

/-- `buf` is `m_buf` before, and `pread` what the one call does, from the start of the file. -/
def readToBuffer (f : ReadSmallFile) (buf : List UInt8) (pread : ReadOutcome) (size : Option ℤ) :
    ReadToBuffer :=
  match f.fd with
  | none => ⟨f.err, size, buf⟩
  | some file =>
    match read file.bytes (kBuffSize - 1) pread with
    | .ok (data, _) =>
      ⟨f.err, size.map fun _ => data.length, data ++ 0 :: buf.drop (data.length + 1)⟩
    | .error errno => ⟨errno, size, buf⟩

end ReadSmallFile

def readFile (opened : Except ℤ OpenFile) (reads : ℕ → ReadOutcome) (fuel : ℕ) (maxSize : ℤ)
    (content : List UInt8) (p : Pointers) : Option ReadToString :=
  (ReadSmallFile.create opened).readToString reads fuel maxSize content p

end Czy.FileUtil
