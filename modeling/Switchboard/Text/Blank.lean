import Switchboard.Text.Basic

/-!
# Blanks and words

The blanks are the code points with the Unicode property White_Space together with the four
information separators U+001C to U+001F. Words are the longest stretches between them.
-/

namespace Switchboard

namespace CodePoint

def blankRanges : List (Nat × Nat) :=
  [(0x09, 0x0D), (0x1C, 0x20), (0x85, 0x85), (0xA0, 0xA0), (0x1680, 0x1680), (0x2000, 0x200A),
    (0x2028, 0x2029), (0x202F, 0x202F), (0x205F, 0x205F), (0x3000, 0x3000)]

def isBlank (c : CodePoint) : Bool :=
  blankRanges.any fun range => range.1 ≤ c.val && c.val ≤ range.2

end CodePoint

namespace Text

def strip (t : Text) : Text :=
  ((t.dropWhile CodePoint.isBlank).reverse.dropWhile CodePoint.isBlank).reverse

def IsBlank (t : Text) : Prop := ∀ c ∈ t, c.isBlank

instance (t : Text) : Decidable t.IsBlank := inferInstanceAs (Decidable (∀ c ∈ t, _))

/-- The pieces between blanks, empty pieces included. -/
def pieces : Text → List Text
  | [] => [[]]
  | c :: rest =>
    if c.isBlank then
      [] :: pieces rest
    else
      match pieces rest with
      | [] => [[c]]
      | piece :: others => (c :: piece) :: others

def words (t : Text) : List Text :=
  (pieces t).filter fun piece => !piece.isEmpty

theorem dropWhile_isBlank_eq_nil_iff (t : Text) :
    t.dropWhile CodePoint.isBlank = [] ↔ t.IsBlank := by
  induction t with
  | nil => simp [IsBlank]
  | cons c rest ih => by_cases h : c.isBlank <;> simp_all [IsBlank]

theorem isBlank_dropWhile_isBlank_iff (t : Text) :
    IsBlank (t.dropWhile CodePoint.isBlank) ↔ t.IsBlank := by
  induction t with
  | nil => simp [IsBlank]
  | cons c rest ih => by_cases h : c.isBlank <;> simp_all [IsBlank]

theorem strip_eq_nil_iff (t : Text) : t.strip = [] ↔ t.IsBlank := by
  rw [strip, List.reverse_eq_nil_iff, dropWhile_isBlank_eq_nil_iff,
    ← isBlank_dropWhile_isBlank_iff t]
  simp [IsBlank]

end Text

end Switchboard
