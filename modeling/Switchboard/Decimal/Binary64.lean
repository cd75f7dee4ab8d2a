import Switchboard.Text.Numeral

/-!
# Binary64 numbers

A finite number is a sign and a rank: its place in the ascending row of all finite magnitudes, zero
first. The row has one magnitude for every sum of a biased exponent and a fraction, so neighbouring
ranks are neighbouring magnitudes and no two ranks share one. A decimal is read as the rank nearest
to it, and of two equally near ranks as the even one.
-/

namespace Switchboard

-- a power means the same here whichever libraries are at hand that know powers of their own
@[reducible]
local instance (priority := high) natPow : Pow Nat Nat := instPowNat

attribute [default_instance 20000] natPow

/-- The rank that the first magnitude too great to be finite would have. -/
def topRank : Nat := 2047 * 2 ^ 52

inductive Binary64
  | nan
  | infinite (negative : Bool)
  | finite (negative : Bool) (rank : Fin topRank)
  deriving DecidableEq, Repr

structure Decimal where
  coefficient : Nat
  exponent : Int
  deriving DecidableEq, Repr

namespace Binary64

/-- The magnitude of a rank, counted in units of 2 to the power of -1074, the least magnitude above
zero. -/
def units (rank : Nat) : Nat :=
  if rank < 2 ^ 52 then rank else (2 ^ 52 + rank % 2 ^ 52) * 2 ^ (rank / 2 ^ 52 - 1)

/-- A quotient rounded to the nearest number, and to the even one of two equally near. -/
def divideToNearest (numerator denominator : Nat) : Nat :=
  let quotient := numerator / denominator
  let twice := 2 * (numerator % denominator)
  if twice < denominator then quotient
  else if denominator < twice then quotient + 1
  else quotient + quotient % 2

/-- The rank nearest to a quotient of units. Ranks below 2 to the power of 53 are one unit apart;
for every further binary place of the quotient the distance doubles. -/
def nearestRank (numerator denominator : Nat) : Nat :=
  let doublings := (numerator / denominator).log2 - 52
  doublings * 2 ^ 52 + divideToNearest numerator (denominator * 2 ^ doublings)

def ofRank (negative : Bool) (rank : Nat) : Binary64 :=
  if h : rank < topRank then finite negative ⟨rank, h⟩ else infinite negative

/-- Decimals of 310 or more places before the point are beyond every finite number, and those whose
first 323 places after the point are zero are nearer to zero than to any other; no power of ten is
computed for them. -/
def ofDecimal (negative : Bool) (d : Decimal) : Binary64 :=
  let places := (Numeral.digits 10 d.coefficient).length + d.exponent
  if d.coefficient = 0 ∨ places < -323 then ofRank negative 0
  else if 309 < places then infinite negative
  else
    ofRank negative
      (nearestRank (d.coefficient * 10 ^ d.exponent.toNat * 2 ^ 1074) (10 ^ (-d.exponent).toNat))

def isZero : Binary64 → Bool
  | finite _ rank => rank.val = 0
  | _ => false

def one : Binary64 := ofDecimal false ⟨1, 0⟩

end Binary64

end Switchboard
