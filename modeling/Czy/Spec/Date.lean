import Czy.Lib.Checked

/-! base/date.cpp and base/date.h: dates as Julian day numbers. An `int` is kept
with the mark whether it was computed without an overflow. -/

namespace Czy

abbrev CInt := Checked 2147483648

structure YearMonthDay where
  year : CInt
  month : CInt
  day : CInt
  deriving DecidableEq, Repr

def getJulianDayNumber (year month day : CInt) : CInt :=
  let a := (14 - month) / 12
  let y := year + 4800 - a
  let m := month + 12 * a - 3
  day + (153 * m + 2) / 5 + y * 365 + y / 4 - y / 100 + y / 400 - 32045

def getYearMonthDay (julianDayNumber : CInt) : YearMonthDay :=
  let a := julianDayNumber + 32044
  let b := (4 * a + 3) / 146097
  let c := a - b * 146097 / 4
  let d := (4 * c + 3) / 1461
  let e := c - 1461 * d / 4
  let m := (5 * e + 2) / 153
  { day := e - (153 * m + 2) / 5 + 1
    month := m + 3 - 12 * (m / 10)
    year := b * 100 + d - 4800 + m / 10 }

structure Date where
  julianDayNumber : CInt
  deriving DecidableEq, Repr

namespace Date

def julianDayOf19700101 : CInt := getJulianDayNumber 1970 1 1

def ofYearMonthDay (y m d : CInt) : Date := ⟨getJulianDayNumber y m d⟩

def yearMonthDay (date : Date) : YearMonthDay := getYearMonthDay date.julianDayNumber

def weekDay (date : Date) : CInt := (date.julianDayNumber + 1) % 7

instance : LT Date := ⟨fun x y => x.julianDayNumber.value < y.julianDayNumber.value⟩

end Date

end Czy
