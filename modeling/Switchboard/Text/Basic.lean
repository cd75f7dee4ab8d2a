/-!
# Text

Text is a list of Unicode code points. Surrogates count as code points, because a settings file can
spell them alone and a terminal can deliver them. Whether a text can be written out as bytes is
decided where it is encoded.
-/

namespace Switchboard

abbrev CodePoint := Fin 0x110000

/-- Literals of code points go by this instance. -/
instance CodePoint.neZero : @NeZero Nat Zero.ofOfNat0 0x110000 := ⟨Nat.succ_ne_zero 0x10FFFF⟩

namespace CodePoint

def ofChar (c : Char) : CodePoint :=
  ⟨c.toNat, by
    rcases c.valid with h | ⟨_, h⟩
    · exact Nat.lt_trans h (by decide)
    · exact h⟩

instance : Coe Char CodePoint := ⟨ofChar⟩

def IsHighSurrogate (c : CodePoint) : Prop := 0xD800 ≤ c.val ∧ c.val ≤ 0xDBFF

def IsLowSurrogate (c : CodePoint) : Prop := 0xDC00 ≤ c.val ∧ c.val ≤ 0xDFFF

def IsSurrogate (c : CodePoint) : Prop := 0xD800 ≤ c.val ∧ c.val ≤ 0xDFFF

/-- The surrogates that stand for single bytes outside ASCII in the names of files. -/
def IsByteEscape (c : CodePoint) : Prop := 0xDC80 ≤ c.val ∧ c.val ≤ 0xDCFF

instance (c : CodePoint) : Decidable c.IsHighSurrogate := inferInstanceAs (Decidable (_ ∧ _))

instance (c : CodePoint) : Decidable c.IsLowSurrogate := inferInstanceAs (Decidable (_ ∧ _))

instance (c : CodePoint) : Decidable c.IsSurrogate := inferInstanceAs (Decidable (_ ∧ _))

instance (c : CodePoint) : Decidable c.IsByteEscape := inferInstanceAs (Decidable (_ ∧ _))

theorem isSurrogate_iff (c : CodePoint) :
    c.IsSurrogate ↔ c.IsHighSurrogate ∨ c.IsLowSurrogate := by
  simp only [IsSurrogate, IsHighSurrogate, IsLowSurrogate]
  omega

end CodePoint

abbrev Text := List CodePoint

namespace Text

def ofString (s : String) : Text :=
  s.toList.map CodePoint.ofChar

instance : Coe String Text := ⟨ofString⟩

/-- Texts that hold no surrogate are the ones that have a byte form. -/
def Encodable (t : Text) : Prop := ∀ c ∈ t, ¬ c.IsSurrogate

instance (t : Text) : Decidable t.Encodable :=
  List.decidableBAll (fun c => ¬ CodePoint.IsSurrogate c) t

def dropBeginning? (beginning : Text) (t : Text) : Option Text :=
  if beginning.isPrefixOf t then some (t.drop beginning.length) else none

def joinWith (separator : Text) (ts : List Text) : Text :=
  (ts.intersperse separator).flatten

end Text

end Switchboard
