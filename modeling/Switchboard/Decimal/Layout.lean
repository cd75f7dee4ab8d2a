import Switchboard.Decimal.Shortest

/-!
# The layout of decimal numbers

How the digits of a number are laid out on the line: with the point among them while it stands near
them, and otherwise with an exponent.
-/

namespace Switchboard

structure NumberWords where
  infinity : Text
  notANumber : Text

/-- Digits without zeros at their end, and the number of places before the point. -/
structure Significand where
  digits : List Nat
  point : Int
  deriving DecidableEq, Repr

namespace Decimal

def dropTrailingZeros (ds : List Nat) : List Nat :=
  (ds.reverse.dropWhile (· == 0)).reverse

def significand (d : Decimal) : Significand :=
  let ds := Numeral.digits 10 d.coefficient
  ⟨dropTrailingZeros ds, ds.length + d.exponent⟩

end Decimal

namespace Significand

def zeros (n : Nat) : Text :=
  List.replicate n (CodePoint.ofChar '0')

def exponentText (e : Int) : Text :=
  (if e < 0 then "e-" else "e+") ++ Text.padded 2 e.natAbs

def fraction (places : Text) : Text :=
  if places = [] then [] else "." ++ places

/-- The point stands among the digits or next to them while no more than four zeros follow it and no
more than sixteen places precede it. A number always shows at least one place on either side of its
point, unless it has an exponent. -/
def text (s : Significand) : Text :=
  let ds := s.digits.map Numeral.digitCodePoint
  if -4 < s.point ∧ s.point ≤ 16 then
    if s.point ≤ 0 then
      "0." ++ zeros (-s.point).toNat ++ ds
    else if ds.length ≤ s.point.toNat then
      ds ++ zeros (s.point.toNat - ds.length) ++ ".0"
    else
      ds.take s.point.toNat ++ "." ++ ds.drop s.point.toNat
  else
    ds.take 1 ++ fraction (ds.drop 1) ++ exponentText (s.point - 1)

end Significand

namespace Binary64

def signText (negative : Bool) : Text :=
  if negative then "-" else []

def text (words : NumberWords) : Binary64 → Text
  | nan => words.notANumber
  | infinite negative => signText negative ++ words.infinity
  | finite negative rank =>
    signText negative ++
      (if rank.val = 0 then ("0.0" : Text) else (shortest rank.val).significand.text)

end Binary64

end Switchboard
