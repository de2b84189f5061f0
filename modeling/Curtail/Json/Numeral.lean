import Curtail.Number.Shortest
import Curtail.Number.Stepwise

namespace Curtail.Json

/-- The digits after the point spell `fraction`, and `places` counts them. -/
structure Numeral where
  negative : Bool
  whole : Nat
  fraction : Nat
  places : Nat
  exponent : Option Int
  deriving DecidableEq, Repr

inductive Number
  | integer (n : Int)
  | double (x : Binary64)
  deriving DecidableEq

namespace Numeral

def ofInt (n : Int) : Numeral :=
  ⟨n < 0, n.natAbs, 0, 0, none⟩

def ofNat (n : Nat) : Numeral :=
  ⟨false, n, 0, 0, none⟩

def isWhole (n : Numeral) : Bool :=
  n.places = 0 && n.exponent.isNone

def nat? (n : Numeral) : Option Nat :=
  if n.isWhole && !n.negative then some n.whole else none

/-- Zero with a sign is no integer. -/
def int? (n : Numeral) : Option Int :=
  if !n.isWhole then none
  else if !n.negative then some n.whole
  else if n.whole = 0 then none
  else some (-n.whole)

def wholeDigits (n : Numeral) : List Nat :=
  (Decimal.digits n.whole).map (·.toNat - 48)

def fractionDigits (n : Numeral) : List Nat :=
  let found := if n.places = 0 then [] else (Decimal.digits n.fraction).map (·.toNat - 48)
  List.replicate (n.places - found.length) 0 ++ found

/-- Digits that find no place in a significand of 64 bits go into the power of ten. -/
def double? (n : Numeral) : Option Binary64 :=
  let (front, above) := absorb 0 n.wholeDigits
  let (significand, below) := absorb front n.fractionDigits
  Binary64.stepwise? n.negative significand
    (n.exponent.getD 0 + above.length - (n.places - below.length : Nat))

def number? (n : Numeral) : Option Number :=
  match n.int? with
  | some i =>
    if -0x8000000000000000 ≤ i ∧ i < 0x10000000000000000 then some (.integer i)
    else n.double?.map .double
  | none => n.double?.map .double

def pointed (negative : Bool) (coefficient before : Nat) (exponent : Option Int) : Numeral :=
  let places := Decimal.digitCount coefficient - before
  ⟨negative, coefficient / Nat.pow 10 places, coefficient % Nat.pow 10 places, places, exponent⟩

/-- Positional from five places below the point to sixteen above, else with an exponent. -/
def ofDouble (x : Binary64) : Numeral :=
  let d := x.shortest .toEven
  let count := Decimal.digitCount d.coefficient
  let above : Int := count + d.power
  if d.coefficient = 0 then ⟨x.negative, 0, 0, 1, none⟩
  else if 0 ≤ d.power ∧ above ≤ 16 then
    ⟨x.negative, d.coefficient * Nat.pow 10 d.power.natAbs, 0, 1, none⟩
  else if 0 < above ∧ above ≤ 16 then pointed x.negative d.coefficient above.natAbs none
  else if -5 < above ∧ above ≤ 0 then
    ⟨x.negative, 0, d.coefficient, count + above.natAbs, none⟩
  else pointed x.negative d.coefficient 1 (some (above - 1))

/-- Of two digits as near, the greater one is the last. -/
def scientific (x : Binary64) : Numeral :=
  let d := x.shortest .up
  pointed x.negative d.coefficient 1 (some (Decimal.digitCount d.coefficient + d.power - 1))

def ofNumber : Number → Numeral
  | .integer n => ofInt n
  | .double x => ofDouble x

def intText (n : Int) : List Char :=
  if n < 0 then '-' :: Decimal.digits n.natAbs else Decimal.digits n.natAbs

structure ExponentForm where
  mark : Char
  signed : Bool
  deriving DecidableEq, Repr

def ExponentForm.text (form : ExponentForm) (exponent : Int) : List Char :=
  form.mark :: ((if form.signed && 0 < exponent then ['+'] else []) ++ intText exponent)

def text (form : ExponentForm) (n : Numeral) : List Char :=
  let sign := if n.negative then ['-'] else []
  let fraction :=
    if n.places = 0 then []
    else
      let ds := if n.fraction = 0 then [] else Decimal.digits n.fraction
      '.' :: (List.replicate (n.places - ds.length) '0' ++ ds)
  let exponent := match n.exponent with
    | none => []
    | some e => form.text e
  sign ++ Decimal.digits n.whole ++ fraction ++ exponent

end Numeral

end Curtail.Json
