import Switchboard.Text.Basic

/-!
# Capital forms

The capital form of a text, as far as it can spell a name in the letters A to Z and the underscore:
every code point whose full capital form is such a word is listed, and all others stay as they are.
-/

namespace Switchboard

namespace CodePoint

/-- The code points outside a to z whose full capital form lies in A to Z. -/
def capitalForms : List (Nat × String) :=
  [(0xDF, "SS"), (0x131, "I"), (0x17F, "S"), (0xFB00, "FF"), (0xFB01, "FI"), (0xFB02, "FL"),
    (0xFB03, "FFI"), (0xFB04, "FFL"), (0xFB05, "ST"), (0xFB06, "ST")]

def capital (c : CodePoint) : Text :=
  if 0x61 ≤ c.val ∧ c.val ≤ 0x7A then [Fin.ofNat _ (c.val - 0x20)]
  else
    match capitalForms.lookup c.val with
    | some form => form
    | none => [c]

end CodePoint

def Text.capital (t : Text) : Text :=
  t.flatMap CodePoint.capital

end Switchboard
