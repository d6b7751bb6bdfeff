import Czy.Spec.Date

/-! base/time_zone.cpp: the conversions between `time_t` and the broken-down UTC time. -/

namespace Czy

abbrev TimeT := Checked 9223372036854775808

/-- `unsigned`, of which only quotients and remainders are taken: nothing wraps. -/
abbrev CUnsigned := Checked 4294967296

/-- An `int` passed for an `unsigned`. -/
def unsignedOfInt (x : CInt) : CUnsigned := ⟨x.value % 4294967296, x.ok⟩

/-- `struct tm`. -/
structure Tm where
  sec : CInt
  min : CInt
  hour : CInt
  mday : CInt
  mon : CInt
  year : CInt
  wday : CInt
  yday : CInt
  isdst : CInt
  zone : String
  deriving DecidableEq, Repr

/-- After `mem_zero` and the assignment of `tm_zone`. -/
def Tm.zero : Tm := ⟨0, 0, 0, 0, 0, 0, 0, 0, 0, "GMT"⟩

def fillHMS (seconds : CUnsigned) (utc : Tm) : Tm :=
  let minutes := seconds / 60
  { utc with sec := (seconds % 60).narrow _, min := (minutes % 60).narrow _,
             hour := (minutes / 60).narrow _ }

def kSecondsPerDay : CInt := 24 * 60 * 60

namespace TimeZone

def toUtcTime (secondsSinceEpoch : TimeT) (yday : Bool) : Tm :=
  let seconds : CInt := (secondsSinceEpoch % kSecondsPerDay.widen _).narrow _
  let days : CInt := (secondsSinceEpoch / kSecondsPerDay.widen _).narrow _
  -- both are corrected by one test, before `seconds` changes
  let days := if seconds.value < 0 then days - 1 else days
  let seconds := if seconds.value < 0 then seconds + kSecondsPerDay else seconds
  let utc := fillHMS (unsignedOfInt seconds) .zero
  let date : Date := ⟨days + Date.julianDayOf19700101⟩
  let ymd := date.yearMonthDay
  let utc := { utc with year := ymd.year - 1900, mon := ymd.month - 1, mday := ymd.day,
                        wday := date.weekDay }
  if yday then
    let startOfYear := Date.ofYearMonthDay ymd.year 1 1
    { utc with yday := date.julianDayNumber - startOfYear.julianDayNumber }
  else utc

def fromFields (year month day hour minute seconds : CInt) : TimeT :=
  let date := Date.ofYearMonthDay year month day
  let secondsInDay := hour * 3600 + minute * 60 + seconds
  let days : TimeT := (date.julianDayNumber - Date.julianDayOf19700101).widen _
  days * kSecondsPerDay.widen _ + secondsInDay.widen _

def fromUtcTime (utc : Tm) : TimeT :=
  fromFields (utc.year + 1900) (utc.mon + 1) utc.mday utc.hour utc.min utc.sec

end TimeZone

end Czy
