import Curtail.Instant.Basic
import Curtail.Text.Blank

namespace Curtail.Instant

def padded (width n : Nat) : String :=
  Text.padStart width '0' (toString n)

def yearText (year : Int) : String :=
  if 0 ≤ year ∧ year ≤ 9999 then padded 4 year.natAbs
  else (if year < 0 then "-" else "+") ++ padded 4 year.natAbs

def dateText (t : Instant) : String :=
  let d := Day.ofNumber (t.seconds.fdiv 86400)
  yearText d.year ++ "-" ++ padded 2 d.month ++ "-" ++ padded 2 d.day

/-- A leap second is the sixtieth. -/
def clockText (t : Instant) : String :=
  let ofDay := (t.seconds % 86400).natAbs
  let second := ofDay % 60 + t.nanos / 1000000000
  padded 2 (ofDay / 3600) ++ ":" ++ padded 2 (ofDay / 60 % 60) ++ ":" ++ padded 2 second

/-- In three, six or nine digits, the fewest that are exact. -/
def fractionText (t : Instant) : String :=
  let n := t.nanos % 1000000000
  if n = 0 then ""
  else if n % 1000000 = 0 then "." ++ padded 3 (n / 1000000)
  else if n % 1000 = 0 then "." ++ padded 6 (n / 1000)
  else "." ++ padded 9 n

def text (t : Instant) : String :=
  t.dateText ++ "T" ++ t.clockText ++ t.fractionText ++ "Z"

def textToSecond (t : Instant) : String :=
  t.dateText ++ "T" ++ t.clockText ++ "Z"

def display (t : Instant) : String :=
  t.dateText ++ " " ++ t.clockText ++ t.fractionText ++ " UTC"

def digit? (c : Char) : Option Nat :=
  if '0' ≤ c ∧ c ≤ '9' then some (c.toNat - 48) else none

def takeDigits (value count : Nat) : Nat → List Char → Nat × Nat × List Char
  | 0, cs => (value, count, cs)
  | _ + 1, [] => (value, count, [])
  | most + 1, c :: cs =>
    match digit? c with
    | some d => takeDigits (value * 10 + d) (count + 1) most cs
    | none => (value, count, c :: cs)

def readNumber (most : Nat) (cs : List Char) : Option (Nat × List Char) :=
  let (value, count, rest) := takeDigits 0 0 most (Text.trimStart cs)
  if count = 0 then none else some (value, rest)

def readYear (cs : List Char) : Option (Int × List Char) :=
  let signed (sign : Int) (cs : List Char) : Option (Int × List Char) :=
    let (value, count, rest) := takeDigits 0 0 cs.length cs
    if count = 0 then none else some (sign * value, rest)
  match Text.trimStart cs with
  | '-' :: cs => signed (-1) cs
  | '+' :: cs => signed 1 cs
  | cs => (readNumber 4 cs).map fun (n, rest) => (n, rest)

def readMark (mark : Char) (cs : List Char) : Option (List Char) :=
  match Text.trimStart cs with
  | c :: cs => if c = mark then some cs else none
  | [] => none

def readDay (cs : List Char) : Option (Day × List Char) := do
  let (year, cs) ← readYear cs
  let cs ← readMark '-' cs
  let (month, cs) ← readNumber 2 cs
  let cs ← readMark '-' cs
  let (day, cs) ← readNumber 2 cs
  let d : Day := ⟨year, month, day⟩
  if d.exists? && Day.firstYear ≤ year && year ≤ Day.lastYear then some (d, cs) else none

def readSeparator : List Char → Option (List Char)
  | c :: cs => if c = 't' ∨ c = 'T' ∨ c = ' ' then some cs else none
  | [] => none

/-- Digits beyond the ninth are dropped. -/
def readFraction : List Char → Option (Nat × List Char)
  | '.' :: cs =>
    let (value, count, rest) := takeDigits 0 0 9 cs
    if count = 0 then none
    else some (value * Nat.pow 10 (9 - count), rest.dropWhile fun c => (digit? c).isSome)
  | cs => some (0, cs)

def readClock (cs : List Char) : Option (Nat × Nat × List Char) := do
  let (hour, cs) ← readNumber 2 cs
  let cs ← readMark ':' cs
  let (minute, cs) ← readNumber 2 cs
  let cs ← readMark ':' cs
  let (second, cs) ← readNumber 2 cs
  let (nanos, cs) ← readFraction cs
  if hour < 24 && minute < 60 && second ≤ 60 then
    let ofMinute := hour * 3600 + minute * 60
    if second = 60 then some (ofMinute + 59, nanos + 1000000000, cs)
    else some (ofMinute + second, nanos, cs)
  else none

def twoDigits? : List Char → Option (Nat × List Char)
  | a :: b :: cs => do
    let a ← digit? a
    let b ← digit? b
    return (a * 10 + b, cs)
  | _ => none

def readOffsetSize (cs : List Char) : Option (Int × List Char) := do
  let (hours, cs) ← twoDigits? cs
  let (minutes, cs) ← twoDigits? (cs.dropWhile fun c => c = ':' || Text.isBlank c)
  if hours < 24 && minutes < 60 then some (hours * 3600 + minutes * 60, cs) else none

def readOffset (cs : List Char) : Option (Int × List Char) :=
  match Text.trimStart cs with
  | 'Z' :: cs => some (0, cs)
  | 'z' :: cs => some (0, cs)
  | '+' :: cs => readOffsetSize cs
  | '-' :: cs => (readOffsetSize cs).map fun (n, rest) => (-n, rest)
  | '−' :: cs => (readOffsetSize cs).map fun (n, rest) => (-n, rest)
  | a :: b :: c :: cs =>
    if Text.lower [a, b, c] = ['u', 't', 'c'] then some (0, cs) else none
  | _ => none

def inRange (t : Instant) : Bool :=
  let first := (Day.toNumber ⟨Day.firstYear, 1, 1⟩) * 86400
  let past := (Day.toNumber ⟨Day.lastYear + 1, 1, 1⟩) * 86400
  first ≤ t.seconds && t.seconds < past

def ofChars? (cs : List Char) : Option Instant := do
  let (day, cs) ← readDay cs
  let cs ← readSeparator cs
  let (ofDay, nanos, cs) ← readClock cs
  let (offset, cs) ← readOffset cs
  if Text.trimStart cs ≠ [] then none
  let t ← ofParts? (day.toNumber * 86400 + ofDay - offset) nanos
  if t.inRange then some t else none

def ofText? (s : String) : Option Instant := ofChars? s.toList

open Json in
instance : Codec Instant where
  encode t := .text t.text
  decode t := (decode t : Option String).bind ofText?

end Curtail.Instant
