import Switchboard.Text.Basic

/-!
# Decimal and hexadecimal numerals

Digits are listed from the most significant one. Zero has the single digit zero.
-/

namespace Switchboard

namespace Numeral

/-- The first argument bounds the number of digits still to come. -/
def digitsOnto (base : Nat) : Nat → Nat → List Nat → List Nat
  | 0, _, tail => tail
  | bound + 1, n, tail =>
    if n < base then n :: tail else digitsOnto base bound (n / base) (n % base :: tail)

/-- The digits of a number in a base of at least two. A number has fewer digits than its successor
counts. -/
def digits (base n : Nat) : List Nat :=
  digitsOnto base (n + 1) n []

def value (base : Nat) (ds : List Nat) : Nat :=
  ds.foldl (fun n d => n * base + d) 0

def digitCodePoint (d : Nat) : CodePoint :=
  if d < 10 then Fin.ofNat _ (0x30 + d) else Fin.ofNat _ (0x57 + d)

def decimalDigit? (c : CodePoint) : Option Nat :=
  if 0x30 ≤ c.val ∧ c.val ≤ 0x39 then some (c.val - 0x30) else none

def hexDigit? (c : CodePoint) : Option Nat :=
  if 0x30 ≤ c.val ∧ c.val ≤ 0x39 then some (c.val - 0x30)
  else if 0x41 ≤ c.val ∧ c.val ≤ 0x46 then some (c.val - 0x37)
  else if 0x61 ≤ c.val ∧ c.val ≤ 0x66 then some (c.val - 0x57)
  else none

end Numeral

namespace Text

def ofNat (n : Nat) : Text :=
  (Numeral.digits 10 n).map Numeral.digitCodePoint

def ofInt : Int → Text
  | .ofNat n => ofNat n
  | .negSucc n => '-' :: ofNat (n + 1)

def hex (width n : Nat) : Text :=
  let ds := (Numeral.digits 16 n).map Numeral.digitCodePoint
  List.replicate (width - ds.length) (CodePoint.ofChar '0') ++ ds

def padded (width n : Nat) : Text :=
  let ds := ofNat n
  List.replicate (width - ds.length) (CodePoint.ofChar '0') ++ ds

end Text

end Switchboard
