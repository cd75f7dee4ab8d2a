import Switchboard.Decimal.Layout
import Switchboard.Json.Value

/-!
# Printing JSON

The printed form uses ASCII alone and gives every item and member a line of its own, indented by two
spaces a level. An empty container stays on its line. What is not a finite number is printed by the
words that the reader knows for it.
-/

namespace Switchboard.Json

def numberWords : NumberWords := ⟨"Infinity", "NaN"⟩

def surrogatePair (v : Nat) : Nat × Nat :=
  (0xD800 + (v - 0x10000) / 0x400, 0xDC00 + (v - 0x10000) % 0x400)

def unicodeEscape (v : Nat) : Text :=
  "\\u" ++ Text.hex 4 v

def escapeLetters : List (CodePoint × CodePoint) :=
  [('"', '"'), ('\\', '\\'), ('\n', 'n'), ('\r', 'r'), ('\t', 't'), (0x0C, 'f'), (0x08, 'b')]

def escape (c : CodePoint) : Text :=
  match escapeLetters.lookup c with
  | some letter => ['\\', letter]
  | none =>
    if 0x20 ≤ c.val ∧ c.val ≤ 0x7E then [c]
    else if c.val < 0x10000 then unicodeEscape c.val
    else unicodeEscape (surrogatePair c.val).1 ++ unicodeEscape (surrogatePair c.val).2

def string (t : Text) : Text :=
  "\"" ++ t.flatMap escape ++ "\""

def newLine (level : Nat) : Text :=
  '\n' :: List.replicate (2 * level) (CodePoint.ofChar ' ')

mutual

/-- The printed form, for a value that stands at the given level of indentation. -/
def printAt (level : Nat) : Json → Text
  | null => "null"
  | bool true => "true"
  | bool false => "false"
  | int n => Text.ofInt n
  | float x => x.text numberWords
  | str t => string t
  | arr [] => "[]"
  | arr (item :: items) =>
    "[" ++ newLine (level + 1) ++ printAt (level + 1) item ++ printItems (level + 1) items ++
      newLine level ++ "]"
  | obj [] => "\x7b\x7d"
  | obj ((name, value) :: members) =>
    "\x7b" ++ newLine (level + 1) ++ string name ++ ": " ++ printAt (level + 1) value ++
      printMembers (level + 1) members ++ newLine level ++ "\x7d"

def printItems (level : Nat) : List Json → Text
  | [] => []
  | item :: items => "," ++ newLine level ++ printAt level item ++ printItems level items

def printMembers (level : Nat) : List (Text × Json) → Text
  | [] => []
  | (name, value) :: members =>
    "," ++ newLine level ++ string name ++ ": " ++ printAt level value ++
      printMembers level members

end

def print (j : Json) : Text :=
  printAt 0 j

end Switchboard.Json
