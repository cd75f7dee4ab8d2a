import Switchboard.Json.Value

/-!
# Reading JSON

The reader goes through a text from left to right. A refusal is located by the length of the text
that was still to be read, and only at the end turned into a line, a column and an offset.
Containers may nest to a fixed depth; the depth that is left is what the reading of values recurses
on.
-/

namespace Switchboard.Json

inductive Malformation
  | byteOrderMark
  | expectedValue
  | expectedName
  | expectedColon
  | expectedComma
  | extraData
  | unterminatedString
  | controlCharacter
  | invalidEscape
  | invalidUnicodeEscape
  deriving DecidableEq, Repr

inductive Container
  | array
  | object
  deriving DecidableEq, Repr

/-- A refusal while the text is read. A malformation comes with the length of the text from the
place of the refusal on. -/
inductive Refusal
  | malformed (what : Malformation) (left : Nat)
  | tooManyDigits (count : Nat)
  | tooDeep (container : Container)
  deriving DecidableEq, Repr

/-- Lines and columns count from one, the offset from zero. -/
structure Place where
  line : Nat
  column : Nat
  offset : Nat
  deriving DecidableEq, Repr

inductive ReadError
  | malformed (what : Malformation) (place : Place)
  | tooManyDigits (count : Nat)
  | tooDeep (container : Container)
  deriving DecidableEq, Repr

abbrev Reader (α : Type) := Text → Except Refusal (α × Text)

def refuse {α : Type} (what : Malformation) (rest : Text) : Except Refusal α :=
  .error (.malformed what rest.length)

def nestingLimit : Nat := 980

def digitLimit : Nat := 4300

def isSpace (c : CodePoint) : Bool :=
  c = ' ' || c = '\t' || c = '\n' || c = '\r'

def skipSpace (s : Text) : Text :=
  s.dropWhile isSpace

/-! ## Strings -/

def escapedCodePoint? (letter : CodePoint) : Option CodePoint :=
  if letter = '"' then some '"'
  else if letter = '\\' then some '\\'
  else if letter = '/' then some '/'
  else if letter = 'b' then some 0x08
  else if letter = 'f' then some 0x0C
  else if letter = 'n' then some '\n'
  else if letter = 'r' then some '\r'
  else if letter = 't' then some '\t'
  else none

def hexValue? (a b c d : CodePoint) : Option CodePoint := do
  let a ← Numeral.hexDigit? a
  let b ← Numeral.hexDigit? b
  let c ← Numeral.hexDigit? c
  let d ← Numeral.hexDigit? d
  return Fin.ofNat _ (Numeral.value 16 [a, b, c, d])

/-- The code points up to the closing quote, surrogates not yet joined, and the text after it. The
length of the text from the opening quote on locates a string that is never closed. Four digits of
an escape are only taken when more text follows them. -/
def readCodePoints (opening : Nat) : Reader Text
  | [] => .error (.malformed .unterminatedString opening)
  | c :: rest =>
    if c = '"' then .ok ([], rest)
    else if c = '\\' then
      match rest with
      | [] => .error (.malformed .unterminatedString opening)
      | letter :: rest' =>
        if letter = 'u' then
          match rest' with
          | d₁ :: d₂ :: d₃ :: d₄ :: next :: rest'' =>
            match hexValue? d₁ d₂ d₃ d₄ with
            | some value =>
              match readCodePoints opening (next :: rest'') with
              | .ok (t, after) => .ok (value :: t, after)
              | .error e => .error e
            | none => refuse .invalidUnicodeEscape rest
          | _ => refuse .invalidUnicodeEscape rest
        else
          match escapedCodePoint? letter with
          | some value =>
            match readCodePoints opening rest' with
            | .ok (t, after) => .ok (value :: t, after)
            | .error e => .error e
          | none => refuse .invalidEscape (c :: rest)
    else if c.val ≤ 0x1F then refuse .controlCharacter (c :: rest)
    else
      match readCodePoints opening rest with
      | .ok (t, after) => .ok (c :: t, after)
      | .error e => .error e

def joinedSurrogates (high low : CodePoint) : CodePoint :=
  Fin.ofNat _ (0x10000 + (high.val - 0xD800) * 0x400 + (low.val - 0xDC00))

/-- Every high surrogate and the low one right after it become the code point they stand for. -/
def joinSurrogates : Text → Text
  | [] => []
  | [c] => [c]
  | c :: d :: rest =>
    if c.IsHighSurrogate ∧ d.IsLowSurrogate then
      joinedSurrogates c d :: joinSurrogates rest
    else
      c :: joinSurrogates (d :: rest)

def readString (s : Text) : Except Refusal (Text × Text) :=
  match readCodePoints (s.length + 1) s with
  | .ok (t, rest) => .ok (joinSurrogates t, rest)
  | .error e => .error e

/-! ## Numbers -/

def readDigits : Text → List Nat × Text
  | [] => ([], [])
  | c :: rest =>
    match Numeral.decimalDigit? c with
    | some d => (d :: (readDigits rest).1, (readDigits rest).2)
    | none => ([], c :: rest)

/-- Zero, or digits of which the first is not zero. -/
def readWhole? (s : Text) : Option (List Nat × Text) :=
  match readDigits s with
  | ([], _) => none
  | (0 :: _, _) => some ([0], s.drop 1)
  | read => some read

/-- The digits after a point; none, and nothing taken, unless a digit follows it. -/
def readFraction (s : Text) : List Nat × Text :=
  match s with
  | [] => ([], [])
  | c :: rest =>
    if c = '.' then
      match readDigits rest with
      | ([], _) => ([], s)
      | read => read
    else ([], s)

def readSign : Text → Bool × Text
  | [] => (false, [])
  | c :: rest =>
    if c = '-' then (true, rest) else if c = '+' then (false, rest) else (false, c :: rest)

/-- The power of ten; none, and nothing taken, unless it has a digit. -/
def readExponent (s : Text) : Option Int × Text :=
  match s with
  | [] => (none, [])
  | c :: rest =>
    if c = 'e' ∨ c = 'E' then
      match readDigits (readSign rest).2 with
      | ([], _) => (none, s)
      | (ds, after) =>
        let size : Int := Numeral.value 10 ds
        (some (if (readSign rest).1 then -size else size), after)
    else (none, s)

/-- A number after its sign. One with neither a fraction nor a power of ten is whole. -/
def readUnsigned (negative : Bool) (s : Text) : Option (Except Refusal (Json × Text)) :=
  match readWhole? s with
  | none => none
  | some (whole, afterWhole) =>
    let (fraction, afterFraction) := readFraction afterWhole
    let (exponent, after) := readExponent afterFraction
    if fraction = [] ∧ exponent = none then
      if digitLimit < whole.length then some (.error (.tooManyDigits whole.length))
      else
        let size : Int := Numeral.value 10 whole
        some (.ok (int (if negative then -size else size), after))
    else
      let d : Decimal :=
        ⟨Numeral.value 10 (whole ++ fraction), exponent.getD 0 - fraction.length⟩
      some (.ok (float (Binary64.ofDecimal negative d), after))

def readNumber (s : Text) : Except Refusal (Json × Text) :=
  let read :=
    match s with
    | [] => none
    | c :: rest => if c = '-' then readUnsigned true rest else readUnsigned false s
  read.getD (refuse .expectedValue s)

/-! ## Values -/

def fixedWords : List (Text × Json) :=
  [("null", null), ("true", bool true), ("false", bool false), ("NaN", float .nan),
    ("Infinity", float (.infinite false)), ("-Infinity", float (.infinite true))]

def readWord? (s : Text) : Option (Json × Text) :=
  fixedWords.findSome? fun (word, value) =>
    (Text.dropBeginning? word s).map fun rest => (value, rest)

/-- The items from the first one on. The bound counts the items that may still come; a text has no
more items than code points. -/
def readItems (inner : Reader Json) : Nat → Reader (List Json)
  | 0, s => refuse .expectedValue s
  | bound + 1, s =>
    match inner s with
    | .error e => .error e
    | .ok (item, afterItem) =>
      match skipSpace afterItem with
      | [] => refuse .expectedComma []
      | c :: rest =>
        if c = ']' then .ok ([item], rest)
        else if c = ',' then
          match readItems inner bound (skipSpace rest) with
          | .error e => .error e
          | .ok (items, after) => .ok (item :: items, after)
        else refuse .expectedComma (c :: rest)

def readName : Reader Text
  | [] => refuse .expectedName []
  | c :: rest => if c = '"' then readString rest else refuse .expectedName (c :: rest)

def readColon : Reader Unit
  | [] => refuse .expectedColon []
  | c :: rest => if c = ':' then .ok ((), rest) else refuse .expectedColon (c :: rest)

def readMember (inner : Reader Json) (s : Text) : Except Refusal ((Text × Json) × Text) :=
  match readName s with
  | .error e => .error e
  | .ok (name, afterName) =>
    match readColon (skipSpace afterName) with
    | .error e => .error e
    | .ok ((), afterColon) =>
      match inner (skipSpace afterColon) with
      | .error e => .error e
      | .ok (value, after) => .ok ((name, value), after)

def readMembers (inner : Reader Json) : Nat → Reader (List (Text × Json))
  | 0, s => refuse .expectedName s
  | bound + 1, s =>
    match readMember inner s with
    | .error e => .error e
    | .ok (member, afterMember) =>
      match skipSpace afterMember with
      | [] => refuse .expectedComma []
      | c :: rest =>
        if c = '\x7d' then .ok ([member], rest)
        else if c = ',' then
          match readMembers inner bound (skipSpace rest) with
          | .error e => .error e
          | .ok (members, after) => .ok (member :: members, after)
        else refuse .expectedComma (c :: rest)

def readArray (inner : Reader Json) (s : Text) : Except Refusal (Json × Text) :=
  match Text.dropBeginning? "]" (skipSpace s) with
  | some rest => .ok (arr [], rest)
  | none =>
    match readItems inner (skipSpace s).length.succ (skipSpace s) with
    | .error e => .error e
    | .ok (items, after) => .ok (arr items, after)

/-- An object after its opening brace. Of members with one name the last value stands, at the place
of the first. -/
def readObject (inner : Reader Json) (s : Text) : Except Refusal (Json × Text) :=
  match Text.dropBeginning? "\x7d" (skipSpace s) with
  | some rest => .ok (obj [], rest)
  | none =>
    match readMembers inner (skipSpace s).length.succ (skipSpace s) with
    | .error e => .error e
    | .ok (members, after) => .ok (obj (Record.putAll [] members), after)

/-- A value, given how the values inside a container are read; nothing is given where the containers
have reached their greatest depth. -/
def readValueWith (inner : Option (Reader Json)) (s : Text) : Except Refusal (Json × Text) :=
  match s with
  | [] => refuse .expectedValue []
  | c :: rest =>
    if c = '"' then
      match readString rest with
      | .error e => .error e
      | .ok (t, after) => .ok (str t, after)
    else if c = '[' then
      match inner with
      | none => .error (.tooDeep .array)
      | some inner => readArray inner rest
    else if c = '\x7b' then
      match inner with
      | none => .error (.tooDeep .object)
      | some inner => readObject inner rest
    else
      match readWord? s with
      | some read => .ok read
      | none => readNumber s

def readValue : Nat → Reader Json
  | 0 => readValueWith none
  | depth + 1 => readValueWith (some (readValue depth))

def placeOf (t : Text) (offset : Nat) : Place :=
  let before := t.take offset
  ⟨before.count (CodePoint.ofChar '\n') + 1,
    (before.reverse.takeWhile (· != CodePoint.ofChar '\n')).length + 1, offset⟩

def Refusal.locate (t : Text) : Refusal → ReadError
  | malformed what left => .malformed what (placeOf t (t.length - left))
  | tooManyDigits count => .tooManyDigits count
  | tooDeep container => .tooDeep container

def byteOrderMark : CodePoint := 0xFEFF

def read (t : Text) : Except Refusal Json :=
  if t.head? = some byteOrderMark then refuse .byteOrderMark t
  else
    match readValue nestingLimit (skipSpace t) with
    | .error e => .error e
    | .ok (value, after) =>
      if skipSpace after = [] then .ok value else refuse .extraData (skipSpace after)

def parse (t : Text) : Except ReadError Json :=
  match read t with
  | .error e => .error (e.locate t)
  | .ok value => .ok value

def Malformation.message : Malformation → Text
  | byteOrderMark => "Unexpected UTF-8 BOM (decode using utf-8-sig)"
  | expectedValue => "Expecting value"
  | expectedName => "Expecting property name enclosed in double quotes"
  | expectedColon => "Expecting ':' delimiter"
  | expectedComma => "Expecting ',' delimiter"
  | extraData => "Extra data"
  | unterminatedString => "Unterminated string starting at"
  | controlCharacter => "Invalid control character at"
  | invalidEscape => "Invalid \\escape"
  | invalidUnicodeEscape => "Invalid \\uXXXX escape"

def Container.name : Container → Text
  | array => "array"
  | object => "object"

def ReadError.message : ReadError → Text
  | malformed what place =>
    what.message ++ ": line " ++ Text.ofNat place.line ++ " column " ++ Text.ofNat place.column ++
      " (char " ++ Text.ofNat place.offset ++ ")"
  | tooManyDigits count =>
    "Exceeds the limit (" ++ Text.ofNat digitLimit ++
      " digits) for integer string conversion: value has " ++ Text.ofNat count ++
      " digits; use sys.set_int_max_str_digits() to increase the limit"
  | tooDeep container =>
    "maximum recursion depth exceeded while decoding a JSON " ++ container.name ++
      " from a unicode string"

end Switchboard.Json
