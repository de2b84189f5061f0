import Curtail.Number.Binary64

/-!
Reading a decimal number as a binary64 number in a few rounded steps: a significand of 64 bits and a
power of ten are rounded, then their product or quotient. The result is near the decimal number, but
need not be the nearest. Main definition: `Binary64.stepwise?`.
-/

namespace Curtail

def absorb (significand : Nat) : List Nat → Nat × List Nat
  | [] => (significand, [])
  | d :: ds =>
    if significand * 10 + d < 0x10000000000000000 then absorb (significand * 10 + d) ds else (significand, d :: ds)

namespace Binary64

def product? (x y : Binary64) : Option Binary64 :=
  let (a, b) := x.ratio
  let (c, d) := y.ratio
  nearest? (x.negative != y.negative) (a * c) (b * d)

def quotient? (x y : Binary64) : Option Binary64 :=
  let (a, b) := x.ratio
  let (c, d) := y.ratio
  nearest? (x.negative != y.negative) (a * d) (b * c)

def greatestPower : Nat := 308

def powerOfTen? (n : Nat) : Option Binary64 :=
  nearest? false (Nat.pow 10 n) 1

/-- A quotient by a power that is out of range is taken in two steps. -/
def stepwise? (negative : Bool) (significand : Nat) (power : Int) : Option Binary64 :=
  if significand = 0 then some (zero negative)
  else if greatestPower < power then none
  else if power < -(2 * greatestPower) then some (zero negative)
  else do
    let x ← nearest? negative significand 1
    if 0 ≤ power then x.product? (← powerOfTen? power.natAbs)
    else if power.natAbs ≤ greatestPower then x.quotient? (← powerOfTen? power.natAbs)
    else
      let y ← x.quotient? (← powerOfTen? greatestPower)
      y.quotient? (← powerOfTen? (power.natAbs - greatestPower))

end Binary64

end Curtail
