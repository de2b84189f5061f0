import Curtail.Number.Binary64

namespace Curtail

structure Decimal where
  coefficient : Nat
  power : Int
  deriving DecidableEq, Repr

namespace Decimal

def digits (n : Nat) : List Char :=
  Nat.toDigits 10 n

def digitCount (n : Nat) : Nat :=
  (digits n).length

def dropZeros : Nat → Decimal → Decimal
  | 0, x => x
  | fuel + 1, x =>
    if x.coefficient ≠ 0 ∧ x.coefficient % 10 = 0 then dropZeros fuel ⟨x.coefficient / 10, x.power + 1⟩
    else x

def trimmed (x : Decimal) : Decimal :=
  dropZeros (digitCount x.coefficient) x

end Decimal

namespace Binary64

def scaledDecimal (num den : Nat) (power : Int) : Nat × Nat :=
  if power < 0 then (num * Nat.pow 10 power.natAbs, den) else (num, den * Nat.pow 10 power.natAbs)

def decimalExponent (num den : Nat) : Int :=
  let guess := (Decimal.digitCount num : Int) - Decimal.digitCount den
  let (n, d) := scaledDecimal num den guess
  if d ≤ n then guess else guess - 1

def readsBack (x : Binary64) (candidate : Decimal) : Bool :=
  ofDecimal? x.negative candidate.coefficient candidate.power = some x

/-- Of two neighbours that read back as `x` the nearer, and of two as near as `halfway` says. -/
def neighbour? (halfway : Halfway) (x : Binary64) (power : Int) : Option Decimal :=
  let (num, den) := x.ratio
  let (n, d) := scaledDecimal num den power
  let low : Decimal := ⟨n / d, power⟩
  let high : Decimal := ⟨n / d + 1, power⟩
  match x.readsBack low, x.readsBack high with
  | true, true => some (if roundQuotient halfway n d = n / d then low else high)
  | true, false => some low
  | false, true => some high
  | false, false => none

def exact (x : Binary64) : Decimal :=
  if x.exponent < 0 then ⟨x.significand * Nat.pow 5 x.exponent.natAbs, x.exponent⟩
  else ⟨x.significand * Nat.pow 2 x.exponent.natAbs, 0⟩

/-- A decimal number with the fewest digits of all that read back as `x`. -/
def shortest (halfway : Halfway) (x : Binary64) : Decimal :=
  if x.significand = 0 then ⟨0, 0⟩
  else
    let (num, den) := x.ratio
    let top := decimalExponent num den
    match (List.range 17).findSome? fun (n : Nat) => x.neighbour? halfway (top - n) with
    | some found => found.trimmed
    | none => x.exact.trimmed

end Binary64

end Curtail
