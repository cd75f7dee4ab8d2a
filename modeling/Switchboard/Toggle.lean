import Switchboard.Failure

/-!
# Toggles

The two words for the positions of a switch. Only the exact words are read; any value can be shown.
-/

namespace Switchboard.Toggle

def word (on : Bool) : Text :=
  if on then "on" else "off"

def format (value : Json) : Text :=
  word value.isTruthy

def parse (token : Json) : Except Failure Bool :=
  match token with
  | .str t =>
    if t = word true then .ok true
    else if t = word false then .ok false
    else .error (.notToggle token)
  | .arr _ => .error (.uncomparableToken .array)
  | .obj _ => .error (.uncomparableToken .object)
  | _ => .error (.notToggle token)

@[simp] theorem format_bool (on : Bool) : format (.bool on) = word on := rfl

@[simp] theorem parse_word (on : Bool) : parse (.str (word on)) = .ok on := by
  cases on <;> rfl

end Switchboard.Toggle
