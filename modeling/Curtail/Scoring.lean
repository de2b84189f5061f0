namespace Curtail.Scoring

def clamp (low high value : Int) : Int :=
  max low (min high value)

def saturate (value : Int) : Int :=
  clamp (-0x80000000000000000000000000000000) 0x7fffffffffffffffffffffffffffffff value

def reduction (baseline actual : UInt64) : UInt64 :=
  if actual ≤ baseline then baseline - actual else 0

def targetShare (target : UInt64) (sites : Nat) : Option UInt64 :=
  if sites = 0 then none else some (UInt64.ofNat (target.toNat / sites))

def payout (reduction share reward penalty : UInt64) : Int64 :=
  let reduction : Int := reduction.toNat
  let share : Int := share.toNat
  let reward : Int := reward.toNat
  let penalty : Int := penalty.toNat
  let value :=
    if share ≤ reduction then saturate (share * reward)
    else saturate (saturate (reduction * reward) - saturate ((share - reduction) * penalty))
  Int64.ofInt (clamp (-0x8000000000000000) 0x7fffffffffffffff value)

end Curtail.Scoring
