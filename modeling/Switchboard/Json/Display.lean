import Switchboard.Decimal.Layout
import Switchboard.Json.Value
import Switchboard.Text.Quoted

/-!
# Values in messages

Messages show a stored value on one line: text quoted, switch positions and nothing by capitalised
words, and the items of a container separated by a comma and a space.
-/

namespace Switchboard.Json

def displayWords : NumberWords := ⟨"inf", "nan"⟩

def displayBool (b : Bool) : Text :=
  if b then "True" else "False"

mutual

def display : Json → Text
  | null => "None"
  | bool b => displayBool b
  | int n => Text.ofInt n
  | float x => x.text displayWords
  | str t => t.quoted
  | arr [] => "[]"
  | arr (item :: items) => "[" ++ display item ++ displayItems items ++ "]"
  | obj [] => "\x7b\x7d"
  | obj ((name, value) :: members) =>
    "\x7b" ++ Text.quoted name ++ ": " ++ display value ++ displayMembers members ++ "\x7d"

def displayItems : List Json → Text
  | [] => []
  | item :: items => ", " ++ display item ++ displayItems items

def displayMembers : List (Text × Json) → Text
  | [] => []
  | (name, value) :: members =>
    ", " ++ Text.quoted name ++ ": " ++ display value ++ displayMembers members

end

def plain : Json → Text
  | str t => t
  | j => j.display

end Switchboard.Json
