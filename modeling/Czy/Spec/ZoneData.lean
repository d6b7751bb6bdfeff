import Czy.Lib.Timeline
import Czy.Spec.Fault
import Czy.Spec.TimeZone

/-! base/time_zone.cpp: the data of a zone, and the conversions between `time_t` and its
local time. A `time_t` is an integer, and the bytes of a text are numbers. -/

namespace Czy

structure Transition where
  gmttime : ℤ
  localtime : ℤ
  localtimeIdx : ℕ
  deriving DecidableEq, Repr

structure Localtime where
  gmtOffset : ℤ
  isDst : Bool
  arrbIdx : ℕ
  deriving DecidableEq, Repr

/-- `Comp`. -/
structure Comp where
  compareGmt : Bool

namespace Comp

def less (comp : Comp) (lhs rhs : Transition) : Bool :=
  if comp.compareGmt then lhs.gmttime < rhs.gmttime else lhs.localtime < rhs.localtime

def equal (comp : Comp) (lhs rhs : Transition) : Bool :=
  if comp.compareGmt then lhs.gmttime == rhs.gmttime else lhs.localtime == rhs.localtime

end Comp

/-- `struct tm` with the field that the UTC conversions leave at zero. -/
structure LocalTm extends Tm where
  gmtoff : ℤ
  deriving DecidableEq, Repr

namespace TimeZone

structure Data where
  transitions : List Transition
  localtimes : List Localtime
  abbreviation : List UInt8
  deriving DecidableEq, Repr

def Data.new : Data := ⟨[], [], []⟩

end TimeZone

/-- `m_data`; a null pointer is `none`. -/
structure TimeZone where
  data : Option TimeZone.Data
  deriving DecidableEq, Repr

namespace TimeZone

def valid (zone : TimeZone) : Bool := zone.data.isSome

/-- `TimeZone(int eastOfUtc, const char* name)`. -/
def ofOffset (eastOfUtc : ℤ) (name : List UInt8) : TimeZone :=
  ⟨some { Data.new with localtimes := [⟨eastOfUtc, false, 0⟩], abbreviation := name }⟩

/-- `lower_bound`, and the step back where the transition found is behind the instant. -/
def findLocaltime (data : Data) (sentry : Transition) (comp : Comp) : Except Abort Localtime := do
  if data.transitions.head?.all fun front => comp.less sentry front then
    deref data.localtimes.head? "data.localtimes.front()"
  else
    let transI := Timeline.lowerBound (fun tr => comp.less tr sentry) data.transitions
    match data.transitions[transI]? with
    | some tr =>
      if comp.equal sentry tr then
        deref data.localtimes[tr.localtimeIdx]? "data.localtimes[transI->localtimeIdx]"
      else
        check (transI ≠ 0) "transI != data.transitions.begin()"
        let tr ← deref data.transitions[transI - 1]? "transI"
        deref data.localtimes[tr.localtimeIdx]? "data.localtimes[transI->localtimeIdx]"
    | none =>
      let tr ← deref data.transitions.getLast? "data.transitions.back()"
      deref data.localtimes[tr.localtimeIdx]? "data.localtimes[data.transitions.back().localtimeIdx]"

/-- The text at a `const char*` into a `string`. -/
def cString (bytes : List UInt8) : String :=
  String.ofList ((bytes.takeWhile (· != 0)).map fun b => Char.ofNat b.toNat)

/-- `&data.abbreviation[idx]`: behind the last character there is the one that ends the text. -/
def textAt (abbreviation : List UInt8) (idx : ℕ) : Option String :=
  if idx ≤ abbreviation.length then some (cString (abbreviation.drop idx)) else none

section

/- gmtime_r and timegm. -/
variable (gmtimeR : ℤ → LocalTm) (timegm : LocalTm → ℤ)

def toLocalTime (zone : TimeZone) (seconds : ℤ) : Except Abort LocalTm := do
  check (zone.data ≠ none) "m_data != NULL"
  let data ← deref zone.data "m_data"
  let found ← findLocaltime data ⟨seconds, 0, 0⟩ ⟨true⟩
  let localSeconds := seconds + found.gmtOffset
  let zoneText ← deref (textAt data.abbreviation found.arrbIdx) "data.abbreviation[local->arrbIdx]"
  return { gmtimeR localSeconds with
    isdst := if found.isDst then 1 else 0
    gmtoff := found.gmtOffset
    zone := zoneText }

def fromLocalTime (zone : TimeZone) (localTm : LocalTm) : Except Abort ℤ := do
  check (zone.data ≠ none) "m_data != NULL"
  let data ← deref zone.data "m_data"
  let seconds := timegm localTm
  let found ← findLocaltime data ⟨0, seconds, 0⟩ ⟨false⟩
  if localTm.isdst.value ≠ 0 then
    let tryTm ← toLocalTime gmtimeR zone (seconds - found.gmtOffset)
    if tryTm.isdst.value = 0 ∧ tryTm.hour.value = localTm.hour.value ∧
        tryTm.min.value = localTm.min.value then
      return seconds - 3600 - found.gmtOffset
    else
      return seconds - found.gmtOffset
  else
    return seconds - found.gmtOffset

end

end TimeZone

end Czy
