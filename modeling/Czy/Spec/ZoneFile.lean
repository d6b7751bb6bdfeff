import Czy.Lib.ByteReader
import Czy.Spec.ZoneData

/-! base/time_zone.cpp: the reader of zone files. A file is its bytes, or `none` when it
cannot be opened. A `logic_error` is an exception with its text; what is undefined aborts. -/

namespace Czy.TimeZone

open ByteReader

/-- A reader of `fp_`, which stores into `*data`. -/
abbrev FileReader (α : Type) := Reader Abort Data α

namespace File

/-- A negative `n` is no length for `char buf[n]`. -/
def readBytes (n : ℤ) : FileReader (List UInt8) :=
  if n < 0 then Reader.fault (.badPointer "buf") else Reader.take n.toNat "no enough data"

def readInt32 : FileReader Int32 := do
  let x ← Reader.take 4 "bad int32_t data"
  return be32toh x

def readUInt8 : FileReader UInt8 := do
  let x ← Reader.take 1 "bad uint8_t data"
  return x.headD 0

end File

open File

/-- `trans.reserve(n)`: a negative number is more than a vector can hold. -/
def reserve (n : Int32) : FileReader Unit := Reader.ensure (0 ≤ n.toInt) "vector::reserve"

/-- `for (int i = 0; i < n; ++i)` around a read. -/
def loop {α : Type} (n : Int32) (body : FileReader α) : FileReader (List α) :=
  body.times n.toInt.toNat

def readLocaltime : FileReader Unit := do
  let gmtoff ← readInt32
  let isdst ← readUInt8
  let abbrind ← readUInt8
  Reader.modify fun data =>
    { data with localtimes := data.localtimes ++ [⟨gmtoff.toInt, isdst != 0, abbrind.toNat⟩] }

/-- The loop over `trans[i]` and `localtimes[i]`; both have `timecnt` elements. -/
def pushTransitions : List (Int32 × UInt8) → FileReader Unit
  | [] => return ()
  | (transTime, localIdx) :: rest => fun s =>
    match s.data.localtimes[localIdx.toNat]? with
    | none => .fault (.badPointer "data->localtimes[localIdx]")
    | some ty =>
      let localtime := transTime.toInt + ty.gmtOffset
      pushTransitions rest ⟨s.bytes, { s.data with
        transitions := s.data.transitions ++ [⟨transTime.toInt, localtime, localIdx.toNat⟩] }⟩

def magic : List UInt8 := [0x54, 0x5a, 0x69, 0x66]

structure Counts where
  isgmtcnt : Int32
  isstdcnt : Int32
  leapcnt : Int32
  timecnt : Int32
  typecnt : Int32
  charcnt : Int32
  deriving DecidableEq, Repr

def readHeader : FileReader Counts := do
  let head ← readBytes 4
  Reader.ensure (head = magic) "bad head"
  let _version ← readBytes 1
  let _ ← readBytes 15
  let isgmtcnt ← readInt32
  let isstdcnt ← readInt32
  let leapcnt ← readInt32
  let timecnt ← readInt32
  let typecnt ← readInt32
  let charcnt ← readInt32
  return { isgmtcnt, isstdcnt, leapcnt, timecnt, typecnt, charcnt }

def readTables (counts : Counts) : FileReader Unit := do
  reserve counts.timecnt
  let trans ← loop counts.timecnt readInt32
  let localtimes ← loop counts.timecnt readUInt8
  let _ ← loop counts.typecnt readLocaltime
  pushTransitions (trans.zip localtimes)

/-- The `try` block. The loop over the leap seconds reads nothing. -/
def readZone : FileReader Unit := do
  let counts ← readHeader
  readTables counts
  let abbreviation ← readBytes counts.charcnt.toInt
  Reader.modify fun data => { data with abbreviation }

/-- The file is read into `data`. The exceptions are caught, and the result is always true. -/
def readTimeZoneFile (zonefile : Option (List UInt8)) (data : Data) : Except Abort (Bool × Data) :=
  match zonefile with
  | none => .ok (true, data)
  | some bytes =>
    match readZone ⟨bytes, data⟩ with
    | .value _ s => .ok (true, s.data)
    | .thrown _ data => .ok (true, data)
    | .fault e => .error e

/-- `TimeZone(const char* zonefile)`. -/
def ofZoneFile (zonefile : Option (List UInt8)) : Except Abort TimeZone := do
  let (loaded, data) ← readTimeZoneFile zonefile Data.new
  return if loaded then ⟨some data⟩ else ⟨none⟩

end Czy.TimeZone
