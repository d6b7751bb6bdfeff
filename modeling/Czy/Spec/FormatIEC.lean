import Czy.Spec.FormatSI

/-! `formatIEC` of base/log_stream.cpp, in the arithmetic of `double`: the literals, the
conversion, the products and the quotients are rounded. -/

namespace Czy

open Rounding

def formatIEC (s : ℤ) : List Char :=
  let n : ℚ := toDouble s
  let buf := printInto 64
  let Ki : ℚ := toDouble 1024.0
  let Mi : ℚ := toDouble (Ki * toDouble 1024.0)
  let Gi : ℚ := toDouble (Mi * toDouble 1024.0)
  let Ti : ℚ := toDouble (Gi * toDouble 1024.0)
  let Pi : ℚ := toDouble (Ti * toDouble 1024.0)
  let Ei : ℚ := toDouble (Pi * toDouble 1024.0)
  if n < Ki then buf (printD s)
  else if n < toDouble (Ki * toDouble 9.995) then buf (printF 2 (toDouble (n / Ki)) ++ ['K', 'i'])
  else if n < toDouble (Ki * toDouble 99.95) then buf (printF 1 (toDouble (n / Ki)) ++ ['K', 'i'])
  else if n < toDouble (Ki * toDouble 1023.5) then buf (printF 0 (toDouble (n / Ki)) ++ ['K', 'i'])
  else if n < toDouble (Mi * toDouble 9.995) then buf (printF 2 (toDouble (n / Mi)) ++ ['M', 'i'])
  else if n < toDouble (Mi * toDouble 99.95) then buf (printF 1 (toDouble (n / Mi)) ++ ['M', 'i'])
  else if n < toDouble (Mi * toDouble 1023.5) then buf (printF 0 (toDouble (n / Mi)) ++ ['M', 'i'])
  else if n < toDouble (Gi * toDouble 9.995) then buf (printF 2 (toDouble (n / Gi)) ++ ['G', 'i'])
  else if n < toDouble (Gi * toDouble 99.95) then buf (printF 1 (toDouble (n / Gi)) ++ ['G', 'i'])
  else if n < toDouble (Gi * toDouble 1023.5) then buf (printF 0 (toDouble (n / Gi)) ++ ['G', 'i'])
  else if n < toDouble (Ti * toDouble 9.995) then buf (printF 2 (toDouble (n / Ti)) ++ ['T', 'i'])
  else if n < toDouble (Ti * toDouble 99.95) then buf (printF 1 (toDouble (n / Ti)) ++ ['T', 'i'])
  else if n < toDouble (Ti * toDouble 1023.5) then buf (printF 0 (toDouble (n / Ti)) ++ ['T', 'i'])
  else if n < toDouble (Pi * toDouble 9.995) then buf (printF 2 (toDouble (n / Pi)) ++ ['P', 'i'])
  else if n < toDouble (Pi * toDouble 99.95) then buf (printF 1 (toDouble (n / Pi)) ++ ['P', 'i'])
  else if n < toDouble (Pi * toDouble 1023.5) then buf (printF 0 (toDouble (n / Pi)) ++ ['P', 'i'])
  else if n < toDouble (Ei * toDouble 9.995) then buf (printF 2 (toDouble (n / Ei)) ++ ['E', 'i'])
  else buf (printF 1 (toDouble (n / Ei)) ++ ['E', 'i'])

end Czy
