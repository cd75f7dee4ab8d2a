import Switchboard.Decimal.Binary64

/-!
# The shortest decimal that reads back

On the grid of decimals with a given number of digits a magnitude has two neighbours. The shortest
decimal of a rank is the neighbour on the first grid, from one digit to seventeen, that reads back
as the same rank. Of two such neighbours the nearer one is taken, and of two equally near the even
one.
-/

namespace Switchboard.Binary64

attribute [local instance] natPow

/-- The number of places before the point, counted down below zero when zeros follow the point. -/
def decimalPlaces (rank : Nat) : Int :=
  (Numeral.digits 10 (units rank * 10 ^ 400 / 2 ^ 1074)).length - 400

def exactDecimal (rank : Nat) : Decimal :=
  ⟨units rank * 5 ^ 1074, -1074⟩

def readsBack (rank : Nat) (d : Decimal) : Bool :=
  ofDecimal false d = ofRank false rank

/-- Of the two neighbours of a quotient on a grid the one that is good, or the nearer one when both
are. -/
def choose? (good : Decimal → Bool) (numerator denominator : Nat) (exponent : Int) :
    Option Decimal :=
  let below : Decimal := ⟨numerator / denominator, exponent⟩
  let above : Decimal := ⟨numerator / denominator + 1, exponent⟩
  match good below, good above with
  | true, true => some ⟨divideToNearest numerator denominator, exponent⟩
  | true, false => some below
  | false, true => some above
  | false, false => none

def neighbour? (rank count : Nat) : Option Decimal :=
  let exponent := decimalPlaces rank - count
  choose? (readsBack rank) (units rank * 10 ^ (-exponent).toNat) (2 ^ 1074 * 10 ^ exponent.toNat)
    exponent

def shortest (rank : Nat) : Decimal :=
  ((List.range' 1 17).findSome? (neighbour? rank)).getD (exactDecimal rank)

end Switchboard.Binary64
