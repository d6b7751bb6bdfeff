import Czy.Lib.Numeral
import Czy.Spec.LogStream
import Czy.Spec.ZoneData

/-! base/logging.cpp: the text of the time of a log line, which a thread keeps for the
second it is made for. -/

namespace Czy.Logger

def kMicroSecondsPerSecond : ℤ := 1000 * 1000

/-- What `snprintf` makes of a `%d`: at least `width` characters, filled up by zeros behind
the sign where its flag is `0`, and by blanks before the number where it has none. -/
def formatInt (zeros : Bool) (width : ℕ) (v : ℤ) : List UInt8 :=
  let sign : List UInt8 := if v < 0 then [45] else []
  let number := (Numeral.numeral 10 v.natAbs).map fun d => UInt8.ofNat (48 + d)
  let fill := width - (sign ++ number).length
  if zeros then sign ++ (List.replicate fill 48 ++ number)
  else List.replicate fill 32 ++ (sign ++ number)

def dateTimeText (tm : Tm) : List UInt8 :=
  formatInt false 4 (tm.year + 1900).value ++ (formatInt true 2 (tm.mon + 1).value ++
    (formatInt true 2 tm.mday.value ++ (32 :: formatInt true 2 tm.hour.value ++
      (58 :: formatInt true 2 tm.min.value ++ (58 :: formatInt true 2 tm.sec.value)))))

/-- `Fmt us(".%06d ", microSeconds)`, and without a zone `Fmt us("%06dZ ", microSeconds)`. -/
def microText (valid : Bool) (microSeconds : ℤ) : List UInt8 :=
  if valid then 46 :: (formatInt true 6 microSeconds ++ [32])
  else formatInt true 6 microSeconds ++ [90, 32]

def fmtSize : ℕ := 32

def timeSize : ℕ := 64

/-- `m_stream << T(str, len)`. -/
def insertT (stream : FixBuffer LogStream.kSmallBuffer) (str : List UInt8) (len : ℕ) :
    Except Abort (FixBuffer LogStream.kSmallBuffer) := do
  check (str.length = len) "strlen(str) == m_len"
  return stream.append str

end Logger

/-- The text in `t_time` and `t_last_second` of a thread, and `g_log_time_zone`. `messages` is
history: what each call has put into the stream of its `Logger`. -/
structure Logging where
  time : List UInt8
  lastSecond : ℤ
  logTimeZone : TimeZone
  messages : List (List UInt8)

namespace Logging

open Logger

/-- A thread that has logged nothing, under the time zone a program starts with. -/
def start : Logging := ⟨[], 0, ⟨none⟩, []⟩

def setTimeZone (log : Logging) (tz : TimeZone) : Logging := { log with logTimeZone := tz }

section

/- gmtime_r. -/
variable (gmtimeR : ℤ → LocalTm)

def tmTime (zone : TimeZone) (seconds : ℤ) : Except Abort LocalTm :=
  if zone.valid then zone.toLocalTime gmtimeR seconds else .ok (gmtimeR seconds)

def makeTime (log : Logging) (seconds : ℤ) : Except Abort Logging :=
  if seconds ≠ log.lastSecond then do
    let tm ← tmTime gmtimeR log.logTimeZone seconds
    let text := dateTimeText tm.toTm
    check (text.length = 17) "len == 17"
    return { log with lastSecond := seconds, time := text.take (timeSize - 1) }
  else return log

def putTime (log : Logging) (microSeconds : ℤ) : Except Abort Logging := do
  let us := microText log.logTimeZone.valid microSeconds
  check (us.length < fmtSize) "static_cast<size_t>(m_length) < sizeof(m_buf)"
  let len := if log.logTimeZone.valid then 8 else 9
  check (us.length = len) "us.length() == len"
  let stream ← insertT .new log.time 17
  let stream ← insertT stream us len
  return { log with messages := log.messages ++ [stream.data] }

/-- `Logger::Impl::format_time`, of an `m_time` of so many microseconds. -/
def formatTime (log : Logging) (microSecondsSince : ℤ) : Except Abort Logging := do
  let log ← makeTime gmtimeR log (microSecondsSince.tdiv kMicroSecondsPerSecond)
  putTime log (microSecondsSince.tmod kMicroSecondsPerSecond)

end

end Logging

end Czy
