import Switchboard.Text.Numeral
import Switchboard.Text.Printable

/-!
# Quoted text

A quoted text stands between single quotes, or between double quotes when it holds a single quote
and no double one. A backslash, the chosen quote and whatever is not printable are escaped.
-/

namespace Switchboard.Text

def quoteMark (t : Text) : CodePoint :=
  let single : CodePoint := '\''
  let double : CodePoint := '"'
  if single ∈ t ∧ double ∉ t then double else single

def escape (mark c : CodePoint) : Text :=
  if c = mark ∨ c = '\\' then ['\\', c]
  else if c = '\t' then "\\t"
  else if c = '\n' then "\\n"
  else if c = '\r' then "\\r"
  else if c.isPrintable then [c]
  else if c.val ≤ 0xFF then "\\x" ++ hex 2 c.val
  else if c.val ≤ 0xFFFF then "\\u" ++ hex 4 c.val
  else "\\U" ++ hex 8 c.val

def quoted (t : Text) : Text :=
  let mark := quoteMark t
  mark :: t.flatMap (escape mark) ++ [mark]

end Switchboard.Text
