import Czy.Lib.Numeral
import Czy.Lib.Rounding
import Czy.Lib.Double

/-! `formatSI` of base/log_stream.cpp. `%.Nf` prints the exact number it gets, rounded half to
even. -/

namespace Czy

open Numeral Rounding

def digitText (ds : List ℕ) : List Char := ds.map Nat.digitChar

/-- `%" PRId64`. -/
def printD (s : ℤ) : List Char := (if s < 0 then ['-'] else []) ++ digitText (numeral 10 s.natAbs)

/-- `%.Nf` of a number that is not negative. -/
def printF (N : ℕ) (x : ℚ) : List Char :=
  let m := (roundHalfEven (x * 10 ^ N)).toNat
  digitText (numeral 10 (m / 10 ^ N)) ++
    if N = 0 then [] else '.' :: digitText (padded 10 N (m % 10 ^ N))

/-- The string in `buf` once `snprintf` has printed a text into it. -/
def printInto (size : ℕ) (text : List Char) : List Char := text.take (size - 1)

/-- `fl` is the number that a `double` gets for the exact result of a conversion or a division.
The constants need no rounding. -/
def formatSIWith (fl : ℚ → ℚ) (s : ℤ) : List Char :=
  let n : ℚ := fl s
  let buf := printInto 64
  if s < 1000 then buf (printD s)
  else if s < 9995 then buf (printF 2 (fl (n / 1e3)) ++ ['k'])
  else if s < 99950 then buf (printF 1 (fl (n / 1e3)) ++ ['k'])
  else if s < 999500 then buf (printF 0 (fl (n / 1e3)) ++ ['k'])
  else if s < 9995000 then buf (printF 2 (fl (n / 1e6)) ++ ['M'])
  else if s < 99950000 then buf (printF 1 (fl (n / 1e6)) ++ ['M'])
  else if s < 999500000 then buf (printF 0 (fl (n / 1e6)) ++ ['M'])
  else if s < 9995000000 then buf (printF 2 (fl (n / 1e9)) ++ ['G'])
  else if s < 99950000000 then buf (printF 1 (fl (n / 1e9)) ++ ['G'])
  else if s < 999500000000 then buf (printF 0 (fl (n / 1e9)) ++ ['G'])
  else if s < 9995000000000 then buf (printF 2 (fl (n / 1e12)) ++ ['T'])
  else if s < 99950000000000 then buf (printF 1 (fl (n / 1e12)) ++ ['T'])
  else if s < 999500000000000 then buf (printF 0 (fl (n / 1e12)) ++ ['T'])
  else if s < 9995000000000000 then buf (printF 2 (fl (n / 1e15)) ++ ['P'])
  else if s < 99950000000000000 then buf (printF 1 (fl (n / 1e15)) ++ ['P'])
  else if s < 999500000000000000 then buf (printF 0 (fl (n / 1e15)) ++ ['P'])
  else buf (printF 2 (fl (n / 1e18)) ++ ['E'])

/-- In exact arithmetic. -/
def formatSI : ℤ → List Char := formatSIWith id

/-- In the arithmetic of `double`. -/
def formatSIDouble : ℤ → List Char := formatSIWith toDouble

end Czy
