import Switchboard.Text.Basic

/-!
# Line breaks

Two conventions live here. A text file is read with every carriage return, alone or before a line
feed, taken as one line feed. Breaking a text into lines also honours the other Unicode line
boundaries, and a boundary at the very end opens no further line.
-/

namespace Switchboard

def CodePoint.isLineBreak (c : CodePoint) : Bool :=
  (0x0A ≤ c.val && c.val ≤ 0x0D) || (0x1C ≤ c.val && c.val ≤ 0x1E) || c.val = 0x85 ||
    c.val = 0x2028 || c.val = 0x2029

namespace Text

def newline : CodePoint := '\n'

def carriageReturn : CodePoint := '\r'

/-- The flag says that the preceding code point was a carriage return, which has already been
written as a line feed. -/
def unifyBreaksFrom (afterReturn : Bool) : Text → Text
  | [] => []
  | c :: rest =>
    if c = carriageReturn then
      newline :: unifyBreaksFrom true rest
    else if c = newline ∧ afterReturn then
      unifyBreaksFrom false rest
    else
      c :: unifyBreaksFrom false rest

def unifyBreaks (t : Text) : Text :=
  unifyBreaksFrom false t

/-- Every line boundary ends a line of its own. -/
def cutAtBreaks : Text → List Text
  | [] => []
  | c :: rest =>
    if c.isLineBreak then
      [] :: cutAtBreaks rest
    else
      match cutAtBreaks rest with
      | [] => [[c]]
      | line :: others => (c :: line) :: others

def lines (t : Text) : List Text :=
  cutAtBreaks (unifyBreaks t)

/-- The lines of an input stream, each with the line feed that ends it. -/
def inputLines : Text → List Text
  | [] => []
  | c :: rest =>
    if c = newline then
      [newline] :: inputLines rest
    else
      match inputLines rest with
      | [] => [[c]]
      | line :: others => (c :: line) :: others

def dropTrailingNewlines (t : Text) : Text :=
  (t.reverse.dropWhile (· == newline)).reverse

end Text

end Switchboard
