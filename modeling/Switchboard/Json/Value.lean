import Switchboard.Decimal.Binary64
import Switchboard.Record

/-!
# JSON values

Whole numbers and binary64 numbers are different values even when they are equal as numbers, and an
object keeps the order of its members. Two readings of a value as a switch are kept apart: whether
it counts as something, and whether it equals a given switch position.
-/

namespace Switchboard

inductive Json
  | null
  | bool (b : Bool)
  | int (n : Int)
  | float (x : Binary64)
  | str (t : Text)
  | arr (items : List Json)
  | obj (members : List (Text × Json))

namespace Json

instance : Inhabited Json := ⟨null⟩

instance : Coe Bool Json := ⟨bool⟩

mutual

def same : Json → Json → Bool
  | null, null => true
  | bool b, bool c => b == c
  | int m, int n => m == n
  | float x, float y => x == y
  | str t, str u => t == u
  | arr items, arr others => sameItems items others
  | obj members, obj others => sameMembers members others
  | _, _ => false

def sameItems : List Json → List Json → Bool
  | [], [] => true
  | item :: items, other :: others => same item other && sameItems items others
  | _, _ => false

def sameMembers : List (Text × Json) → List (Text × Json) → Bool
  | [], [] => true
  | (name, value) :: members, (other, otherValue) :: others =>
    name == other && same value otherValue && sameMembers members others
  | _, _ => false

end

mutual

theorem same_iff : ∀ a b : Json, same a b = true ↔ a = b
  | null, b => by cases b <;> simp [same]
  | bool _, b => by cases b <;> simp [same]
  | int _, b => by cases b <;> simp [same]
  | float _, b => by cases b <;> simp [same]
  | str _, b => by cases b <;> simp [same]
  | arr items, b => by cases b <;> simp [same, sameItems_iff items]
  | obj members, b => by cases b <;> simp [same, sameMembers_iff members]

theorem sameItems_iff : ∀ items others : List Json, sameItems items others = true ↔ items = others
  | [], others => by cases others <;> simp [sameItems]
  | item :: items, others => by
    cases others <;> simp [sameItems, same_iff item, sameItems_iff items]

theorem sameMembers_iff :
    ∀ members others : List (Text × Json), sameMembers members others = true ↔ members = others
  | [], others => by cases others <;> simp [sameMembers]
  | (name, value) :: members, others => by
    cases others <;> simp [sameMembers, same_iff value, sameMembers_iff members, Prod.ext_iff]

end

instance : DecidableEq Json := fun a b => decidable_of_iff _ (same_iff a b)

def isBool : Json → Bool
  | bool _ => true
  | _ => false

def toBool? : Json → Option Bool
  | bool b => some b
  | _ => none

/-- Null, false, zero and what is empty count as nothing. -/
def isTruthy : Json → Bool
  | null => false
  | bool b => b
  | int n => n != 0
  | float x => !x.isZero
  | str t => !t.isEmpty
  | arr items => !items.isEmpty
  | obj members => !members.isEmpty

/-- The numbers one and zero equal the positions on and off. -/
def equalsBool (b : Bool) : Json → Bool
  | bool c => c == b
  | int n => n == if b then 1 else 0
  | float x => if b then x == Binary64.one else x.isZero
  | _ => false

@[simp] theorem isTruthy_bool (b : Bool) : isTruthy (bool b) = b := rfl

@[simp] theorem equalsBool_bool (b c : Bool) : equalsBool b (bool c) = (c == b) := rfl

@[simp] theorem toBool?_bool (b : Bool) : toBool? (bool b) = some b := rfl

theorem toBool?_eq_some_iff (j : Json) (b : Bool) : j.toBool? = some b ↔ j = bool b := by
  cases j <;> simp [toBool?]

theorem isBool_iff (j : Json) : j.isBool ↔ ∃ b, j = bool b := by
  cases j <;> simp [isBool]

end Json

end Switchboard
