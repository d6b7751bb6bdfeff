import Czy.Lib.Search
import Czy.Spec.StringPiece
import Mathlib.Tactic

/-! base/process_info.cpp: the name in the text of /proc/self/stat. -/

namespace Czy.ProcessInfo

open Search

def lparen : UInt8 := 40

def rparen : UInt8 := 41

/-- Behind the bytes of a string there is a NUL. -/
def data (s : List UInt8) : List UInt8 := s ++ [0]

/-- A position that is not found is `npos`. -/
def procname (stat : List UInt8) : StringPiece :=
  let name := StringPiece.new
  match find lparen stat, hr : rfind rparen stat with
  | some lp, some rp =>
    if lp < rp then
      name.set ((data stat).drop (lp + 1)) (intOfSize (rp - lp - 1)) (intOfSize_int _) (by
        have := rfind_lt hr
        have := intOfSize_le (rp - lp - 1)
        rw [data, List.length_drop, List.length_append]
        omega)
    else name
  | _, _ => name

end Czy.ProcessInfo
