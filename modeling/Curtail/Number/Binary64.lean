namespace Curtail

/-- Where a number goes that lies halfway between two. -/
inductive Halfway
  | toEven
  | up
  deriving DecidableEq, Repr

def roundQuotient (halfway : Halfway) (num den : Nat) : Nat :=
  let low := num / den
  let rest := num % den
  if 2 * rest < den then low
  else if den < 2 * rest then low + 1
  else
    match halfway with
    | .toEven => if low % 2 = 0 then low else low + 1
    | .up => low + 1

def IsBinary64 (significand : Nat) (exponent : Int) : Prop :=
  significand < 0x20000000000000 ∧ -1074 ≤ exponent ∧ exponent ≤ 971 ∧
    (0x10000000000000 ≤ significand ∨ exponent = -1074)

instance (significand : Nat) (exponent : Int) : Decidable (IsBinary64 significand exponent) :=
  inferInstanceAs (Decidable (_ ∧ _))

/-- A finite number, `significand * 2 ^ exponent`; zero has a sign too. -/
structure Binary64 where
  negative : Bool
  significand : Nat
  exponent : Int
  isBinary64 : IsBinary64 significand exponent
  deriving DecidableEq

namespace Binary64

def scaled (num den : Nat) (exponent : Int) : Nat × Nat :=
  if exponent < 0 then (num * Nat.pow 2 exponent.natAbs, den) else (num, den * Nat.pow 2 exponent.natAbs)

def exponentOf (num den : Nat) : Int :=
  let wide := (num.log2 : Int) - den.log2 - 52
  let (n, d) := scaled num den wide
  let full := if 0x10000000000000 ≤ n / d then wide else wide - 1
  max full (-1074)

/-- A tie goes to the even significand. -/
def nearest? (negative : Bool) (num den : Nat) : Option Binary64 :=
  let exponent := if num = 0 then -1074 else exponentOf num den
  let (n, d) := scaled num den exponent
  let rounded := roundQuotient .toEven n d
  let (significand, exponent) :=
    if rounded = 0x20000000000000 then (0x10000000000000, exponent + 1) else (rounded, exponent)
  if h : IsBinary64 significand exponent then some ⟨negative, significand, exponent, h⟩ else none

def ratio (x : Binary64) : Nat × Nat :=
  if x.exponent < 0 then (x.significand, Nat.pow 2 x.exponent.natAbs)
  else (x.significand * Nat.pow 2 x.exponent.natAbs, 1)

def zero (negative : Bool) : Binary64 :=
  ⟨negative, 0, -1074, by decide⟩

/-- Powers that are surely too great or too small are settled without being computed. -/
def ofDecimal? (negative : Bool) (coefficient : Nat) (power : Int) : Option Binary64 :=
  if coefficient = 0 then some (zero negative)
  else if 0 ≤ power then
    if 1100 < coefficient.log2 + 3 * power.natAbs then none
    else nearest? negative (coefficient * Nat.pow 10 power.natAbs) 1
  else if coefficient.log2 + 1 + 1100 < 3 * power.natAbs then some (zero negative)
  else nearest? negative coefficient (Nat.pow 10 power.natAbs)

end Binary64

end Curtail
