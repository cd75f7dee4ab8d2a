import Switchboard.Text.Basic

/-!
# UTF-8

Reading bytes as UTF-8 and writing text as UTF-8. A refused byte string is reported by the stretch
of bytes that starts a character and cannot be continued; a refused text by its first run of
surrogates.
-/

namespace Switchboard

abbrev Bytes := List UInt8

namespace Utf8

inductive DecodeFault
  | invalidStart
  | invalidContinuation
  | unexpectedEnd
  deriving DecidableEq, Repr

/-- The bytes from `start` up to, not including, `stop` begin no character. -/
structure DecodeError where
  start : Nat
  stop : Nat
  first : UInt8
  fault : DecodeFault
  deriving DecidableEq, Repr

/-- A character whose last bytes are still owed. The next byte lies between `low` and `high`. -/
structure Unfinished where
  start : Nat
  first : UInt8
  value : Nat
  owed : Nat
  low : Nat
  high : Nat
  deriving DecidableEq, Repr

/-- What a byte outside ASCII begins. The bounds on the second byte leave out overlong forms,
surrogates and values past the last code point. -/
def begin? (position : Nat) (first : UInt8) : Option Unfinished :=
  let b := first.toNat
  if b < 0xC2 then none
  else if b < 0xE0 then some ⟨position, first, b % 0x20, 1, 0x80, 0xBF⟩
  else if b < 0xF0 then
    some ⟨position, first, b % 0x10, 2, if b = 0xE0 then 0xA0 else 0x80,
      if b = 0xED then 0x9F else 0xBF⟩
  else if b < 0xF5 then
    some ⟨position, first, b % 0x08, 3, if b = 0xF0 then 0x90 else 0x80,
      if b = 0xF4 then 0x8F else 0xBF⟩
  else none

def decodeFrom (position : Nat) : Option Unfinished → Bytes → Except DecodeError Text
  | none, [] => .ok []
  | some u, [] => .error ⟨u.start, position, u.first, .unexpectedEnd⟩
  | none, b :: rest =>
    if b.toNat < 0x80 then
      (Fin.ofNat _ b.toNat :: ·) <$> decodeFrom (position + 1) none rest
    else
      match begin? position b with
      | none => .error ⟨position, position + 1, b, .invalidStart⟩
      | some u => decodeFrom (position + 1) (some u) rest
  | some u, b :: rest =>
    if u.low ≤ b.toNat ∧ b.toNat ≤ u.high then
      let value := u.value * 0x40 + b.toNat % 0x40
      if u.owed ≤ 1 then
        (Fin.ofNat _ value :: ·) <$> decodeFrom (position + 1) none rest
      else
        decodeFrom (position + 1) (some ⟨u.start, u.first, value, u.owed - 1, 0x80, 0xBF⟩) rest
    else
      .error ⟨u.start, position, u.first, .invalidContinuation⟩

def decode (bytes : Bytes) : Except DecodeError Text :=
  decodeFrom 0 none bytes

/-- The code points from `start` up to, not including, `stop` are surrogates. -/
structure EncodeError where
  start : Nat
  stop : Nat
  first : CodePoint
  deriving DecidableEq, Repr

def encodeCodePoint (c : CodePoint) : Bytes :=
  let v := c.val
  if v < 0x80 then [UInt8.ofNat v]
  else if v < 0x800 then [UInt8.ofNat (0xC0 + v / 0x40), UInt8.ofNat (0x80 + v % 0x40)]
  else if v < 0x10000 then
    [UInt8.ofNat (0xE0 + v / 0x1000), UInt8.ofNat (0x80 + v / 0x40 % 0x40),
      UInt8.ofNat (0x80 + v % 0x40)]
  else
    [UInt8.ofNat (0xF0 + v / 0x40000), UInt8.ofNat (0x80 + v / 0x1000 % 0x40),
      UInt8.ofNat (0x80 + v / 0x40 % 0x40), UInt8.ofNat (0x80 + v % 0x40)]

def encodeFrom (position : Nat) : Text → Except EncodeError Bytes
  | [] => .ok []
  | c :: rest =>
    if c.IsSurrogate then
      let run := rest.takeWhile fun d => decide d.IsSurrogate
      .error ⟨position, position + 1 + run.length, c⟩
    else
      (encodeCodePoint c ++ ·) <$> encodeFrom (position + 1) rest

def encode (t : Text) : Except EncodeError Bytes :=
  encodeFrom 0 t

/-- The bytes of a text that is known to hold no surrogate; surrogates are passed over. -/
def encodeLossy (t : Text) : Bytes :=
  (t.filter fun c => !decide c.IsSurrogate).flatMap encodeCodePoint

/-! ## Names of files -/

/-- What keeps a name from being given to the system: the first surrogate that stands for no byte,
with those behind it. -/
def nameFault? (position : Nat) : Text → Option EncodeError
  | [] => none
  | c :: rest =>
    if c.IsSurrogate ∧ ¬ c.IsByteEscape then
      let run := rest.takeWhile fun d => decide d.IsSurrogate
      some ⟨position, position + 1 + run.length, c⟩
    else nameFault? (position + 1) rest

/-- What a code point is in the name of a file. Surrogates that stand for no byte get bytes that no
file is known by. -/
def nameCodePoint (c : CodePoint) : Bytes :=
  if c.IsByteEscape then [UInt8.ofNat (c.val - 0xDC00)] else encodeCodePoint c

def nameBytes (t : Text) : Bytes :=
  t.flatMap nameCodePoint

theorem encodeFrom_eq_ok (t : Text) (position : Nat) (h : t.Encodable) :
    encodeFrom position t = .ok (t.flatMap encodeCodePoint) := by
  induction t generalizing position with
  | nil => rfl
  | cons c rest ih =>
    have hc : ¬ c.IsSurrogate := h c (by simp)
    have hr : Text.Encodable rest := fun d hd => h d (by simp [hd])
    simp only [encodeFrom, if_neg hc, ih (position + 1) hr, List.flatMap_cons]
    rfl

theorem encode_eq_ok (t : Text) (h : t.Encodable) :
    encode t = .ok (t.flatMap encodeCodePoint) :=
  encodeFrom_eq_ok t 0 h

end Utf8

end Switchboard
