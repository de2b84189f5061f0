import Curtail.Json.Codec

namespace Curtail

/-- Since 1970-01-01T00:00:00Z. The nanoseconds of a leap second count on from the second before. -/
structure Instant where
  seconds : Int
  nanos : Nat
  nanos_lt : nanos < 2000000000
  leap : 1000000000 ≤ nanos → seconds % 60 = 59
  deriving DecidableEq

namespace Instant

instance : Ord Instant := ⟨compareLex (compareOn seconds) (compareOn nanos)⟩

instance : LT Instant := ltOfOrd

instance : LE Instant := leOfOrd

def ofSeconds (seconds : Int) : Instant :=
  ⟨seconds, 0, by decide, by intro h; simp at h⟩

def ofParts? (seconds : Int) (nanos : Nat) : Option Instant :=
  if h : nanos < 2000000000 ∧ (1000000000 ≤ nanos → seconds % 60 = 59) then
    some ⟨seconds, nanos, h.1, h.2⟩
  else none

def wholeSecond (t : Instant) : Instant :=
  if t.nanos < 1000000000 then ofSeconds t.seconds
  else match ofParts? t.seconds 1000000000 with
    | some whole => whole
    | none => t

def later (s t : Instant) : Instant :=
  if compare s t = .lt then t else s

end Instant

structure Day where
  year : Int
  month : Nat
  day : Nat
  deriving DecidableEq, Repr

namespace Day

def isLeapYear (year : Int) : Bool :=
  year % 4 = 0 && (year % 100 ≠ 0 || year % 400 = 0)

def lastOf (year : Int) (month : Nat) : Nat :=
  match month with
  | 2 => if isLeapYear year then 29 else 28
  | 4 | 6 | 9 | 11 => 30
  | _ => 31

def exists? (d : Day) : Bool :=
  1 ≤ d.month && d.month ≤ 12 && 1 ≤ d.day && d.day ≤ lastOf d.year d.month

/-- Days since 1970-01-01, with years counted from March. -/
def toNumber (d : Day) : Int :=
  let year := if d.month ≤ 2 then d.year - 1 else d.year
  let month : Int := (d.month + 9) % 12
  let era := year.fdiv 400
  let ofEra := year - era * 400
  let ofYear := (153 * month + 2) / 5 + d.day - 1
  era * 146097 + (ofEra * 365 + ofEra / 4 - ofEra / 100 + ofYear) - 719468

def ofNumber (number : Int) : Day :=
  let n := number + 719468
  let era := n.fdiv 146097
  let ofEra := n - era * 146097
  let yearOfEra := (ofEra - ofEra / 1460 + ofEra / 36524 - ofEra / 146096) / 365
  let ofYear := ofEra - (365 * yearOfEra + yearOfEra / 4 - yearOfEra / 100)
  let month := (5 * ofYear + 2) / 153
  let day := ofYear - (153 * month + 2) / 5 + 1
  let month := if month < 10 then month + 3 else month - 9
  let year := yearOfEra + era * 400
  ⟨if month ≤ 2 then year + 1 else year, month.natAbs, day.natAbs⟩

def firstYear : Int := -262143

def lastYear : Int := 262142

end Day

end Curtail
