import Switchboard.Text.Basic

/-!
# Records

A record lists names with their values in the order in which the names first came. Putting a value
under a name that is there keeps the name's place; a new name goes to the end.
-/

namespace Switchboard

abbrev Record (κ α : Type) := List (κ × α)

namespace Record

variable {κ α : Type} [DecidableEq κ]

def get? (r : Record κ α) (name : κ) : Option α :=
  r.lookup name

def put (name : κ) (value : α) : Record κ α → Record κ α
  | [] => [(name, value)]
  | (other, old) :: rest =>
    if other = name then (other, value) :: rest else (other, old) :: put name value rest

/-- Puts every pair in turn, so that the last value under a name stands. -/
def putAll (r : Record κ α) (pairs : List (κ × α)) : Record κ α :=
  pairs.foldl (fun r pair => put pair.1 pair.2 r) r

def remove (name : κ) (r : Record κ α) : Record κ α :=
  r.filter fun pair => pair.1 ≠ name

def names (r : Record κ α) : List κ :=
  r.map Prod.fst

@[simp] theorem get?_nil (name : κ) : get? ([] : Record κ α) name = none := rfl

theorem get?_cons (other : κ) (old : α) (rest : Record κ α) (name : κ) :
    get? ((other, old) :: rest) name = if name = other then some old else get? rest name := by
  by_cases h : name = other
  · simp [get?, h]
  · simp [get?, List.lookup_cons, h, beq_false_of_ne h]

theorem get?_put (r : Record κ α) (name : κ) (value : α) (asked : κ) :
    get? (put name value r) asked = if asked = name then some value else get? r asked := by
  induction r with
  | nil => simp [put, get?_cons]
  | cons pair rest ih =>
    obtain ⟨other, old⟩ := pair
    by_cases h : other = name
    · subst h
      by_cases ha : asked = other <;> simp [put, get?_cons, ha]
    · by_cases ha : asked = other
      · subst ha
        simp [put, h, get?_cons]
      · simp [put, h, get?_cons, ha, ih]

theorem get?_remove (r : Record κ α) (name asked : κ) :
    get? (remove name r) asked = if asked = name then none else get? r asked := by
  induction r with
  | nil => simp [remove]
  | cons pair rest ih =>
    obtain ⟨other, old⟩ := pair
    rw [remove] at ih ⊢
    by_cases h : other = name
    · subst h
      by_cases ha : asked = other <;> simp_all [get?_cons]
    · by_cases ha : asked = other
      · subst ha
        simp [h, get?_cons]
      · simpa [h, get?_cons, ha] using ih

end Record

end Switchboard
