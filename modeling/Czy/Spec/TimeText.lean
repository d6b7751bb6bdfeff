import Czy.Spec.LogFile
import Czy.Spec.Logging

/-! Dates and times as text: `Date::to_iso_string` of base/date.cpp, `to_string` and
`to_formatted_string` of base/time_stamp.cpp, and the time in the name of a log file, of
base/log_file.cpp. -/

namespace Czy

open Logger

/-- The string that `snprintf` leaves in a buffer. -/
def printed (size : ℕ) (text : List UInt8) : List UInt8 := text.take (size - 1)

def Date.toIsoString (date : Date) : List UInt8 :=
  let ymd := date.yearMonthDay
  printed 32 (formatInt false 4 ymd.year.value ++ (45 :: (formatInt true 2 ymd.month.value ++
    (45 :: formatInt true 2 ymd.day.value))))

/-- `TimeStamp`; the number is an `int64_t`. -/
structure TimeStamp where
  microSinceEpoch : ℤ
  deriving DecidableEq, Repr

namespace TimeStamp

instance : LT TimeStamp := ⟨fun lhs rhs => lhs.microSinceEpoch < rhs.microSinceEpoch⟩

def secondsSinceEpoch (t : TimeStamp) : ℤ := t.microSinceEpoch.tdiv kMicroSecondsPerSecond

/-- What both texts take for the microseconds. -/
def microSeconds (t : TimeStamp) : ℤ := t.microSinceEpoch.tmod kMicroSecondsPerSecond

/-- "%" PRId64 ".%06" PRId64 -/
def toString (t : TimeStamp) : List UInt8 :=
  printed 32 (formatInt false 0 t.secondsSinceEpoch ++ (46 :: formatInt true 6 t.microSeconds))

section

/- gmtime_r. -/
variable (gmtimeR : ℤ → LocalTm)

/-- "%4d%02d%02d %02d:%02d:%02d", and with the microseconds ".%06d" behind it. -/
def toFormattedString (t : TimeStamp) (showMicro : Bool) : List UInt8 :=
  let tm := (gmtimeR t.secondsSinceEpoch).toTm
  if showMicro then
    printed 64 (dateTimeText tm ++ (46 :: formatInt true 6 t.microSeconds))
  else printed 64 (dateTimeText tm)

end

end TimeStamp

namespace LogFile

/-- What `strftime` makes of ".%Y%m%d-%H%M%S"; `time_buf` holds all of it. -/
def timeBuf (tm : Tm) : List UInt8 :=
  46 :: (formatInt false 0 (tm.year + 1900).value ++ (formatInt true 2 (tm.mon + 1).value ++
    (formatInt true 2 tm.mday.value ++ (45 :: (formatInt true 2 tm.hour.value ++
      (formatInt true 2 tm.min.value ++ formatInt true 2 tm.sec.value))))))

/-- `time_buf` for a reading of the clock. -/
def gmtText (gmtimeR : ℤ → LocalTm) (now : ℤ) : String :=
  String.ofList ((timeBuf (gmtimeR now).toTm).map fun b => Char.ofNat b.toNat)

end LogFile

end Czy
