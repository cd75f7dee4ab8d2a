import Switchboard.Text.Utf8

/-!
# File paths

A path is a start and the names that lead on from it. Empty names and single dots lead nowhere and
are left out; two dots lead back, but are kept as a name, since what they lead back from has to be
there. The direct form of a path goes nowhere that it comes back from. A path that starts with
exactly two slashes keeps both.

The system knows a name by its bytes, and so paths that are written differently may lead to the
same location. A path without a start leads on from the working directory, which is taken to lie
apart from everything that paths with a start lead to.
-/

namespace Switchboard

namespace Text

/-- The system cannot be given a name with the code point zero in it, or with a surrogate that
stands for no byte. -/
def Unnameable (t : Text) : Prop :=
  ∃ c ∈ t, c = 0 ∨ c.IsSurrogate ∧ ¬ c.IsByteEscape

instance (t : Text) : Decidable t.Unnameable :=
  List.decidableBEx (fun c : CodePoint => c = 0 ∨ c.IsSurrogate ∧ ¬ c.IsByteEscape) t

end Text

/-- Where paths lead, from the root or from the working directory. -/
structure Location where
  fromRoot : Bool
  names : List Bytes
  deriving DecidableEq, Repr

namespace Location

def child (l : Location) (name : Bytes) : Location :=
  ⟨l.fromRoot, l.names ++ [name]⟩

def parent (l : Location) : Location :=
  ⟨l.fromRoot, l.names.dropLast⟩

def lastName (l : Location) : Bytes :=
  l.names.getLast?.getD []

def IsWithin (l above : Location) : Prop :=
  l.fromRoot = above.fromRoot ∧ above.names <+: l.names

instance (l above : Location) : Decidable (l.IsWithin above) :=
  inferInstanceAs (Decidable (_ ∧ _))

@[simp] theorem lastName_child (l : Location) (name : Bytes) : (l.child name).lastName = name := by
  simp [child, lastName]

theorem child_inj (l k : Location) (m n : Bytes) : l.child m = k.child n ↔ l = k ∧ m = n := by
  obtain ⟨s, ls⟩ := l
  obtain ⟨t, ks⟩ := k
  simp [child]
  grind

end Location

/-- The start is empty, one slash or two. -/
structure FilePath where
  start : Text
  names : List Text
  deriving DecidableEq, Repr

namespace FilePath

def slash : CodePoint := '/'

def piecesBetweenSlashes : Text → List Text
  | [] => [[]]
  | c :: rest =>
    if c = slash then
      [] :: piecesBetweenSlashes rest
    else
      match piecesBetweenSlashes rest with
      | [] => [[c]]
      | piece :: others => (c :: piece) :: others

def startOf (t : Text) : Text :=
  match (t.takeWhile (· == slash)).length with
  | 0 => []
  | 2 => "//"
  | _ => "/"

def namesOf (t : Text) : List Text :=
  (piecesBetweenSlashes t).filter fun piece => piece ≠ [] ∧ piece ≠ "."

def ofText (t : Text) : FilePath :=
  ⟨startOf t, namesOf t⟩

/-- A path that leads nowhere is written as a dot. -/
def toText (p : FilePath) : Text :=
  if p.start = [] ∧ p.names = [] then "." else p.start ++ Text.joinWith "/" p.names

def child (p : FilePath) (name : Text) : FilePath :=
  ⟨p.start, p.names ++ [name]⟩

def parent (p : FilePath) : FilePath :=
  ⟨p.start, p.names.dropLast⟩

def lastName (p : FilePath) : Text :=
  p.names.getLast?.getD []

/-- The directories that a path goes through before its own last name, outermost first. -/
def ancestors (p : FilePath) : List FilePath :=
  (List.range' 1 (p.names.length - 1)).map fun count => ⟨p.start, p.names.take count⟩

/-- The name that leads back to the directory before. -/
def upward : Text := ".."

/-- Goes on by one name from those gone through, latest first. The start leads back to itself. -/
def goOn (gone : List Text) (name : Text) : List Text :=
  if name = upward then gone.tail else name :: gone

/-- The path without the names that it comes back from. -/
def direct (p : FilePath) : FilePath :=
  ⟨p.start, (p.names.foldl goOn []).reverse⟩

def location (p : FilePath) : Location :=
  ⟨!p.start.isEmpty, p.direct.names.map Utf8.nameBytes⟩

/-- A path with a name in it that the system cannot be given leads nowhere. -/
def Unnameable (p : FilePath) : Prop := ∃ name ∈ p.names, name.Unnameable

instance (p : FilePath) : Decidable p.Unnameable :=
  inferInstanceAs (Decidable (∃ name ∈ p.names, name.Unnameable))

/-- The greatest number of bytes in one name. -/
def nameLimit : Nat := 255

def NameTooLong (p : FilePath) : Prop :=
  nameLimit < (Utf8.nameBytes p.lastName).length

instance (p : FilePath) : Decidable p.NameTooLong := inferInstanceAs (Decidable (_ < _))

/-- The greatest number of bytes in a whole path. -/
def lengthLimit : Nat := 4095

def TooLong (p : FilePath) : Prop :=
  lengthLimit < (Utf8.nameBytes p.toText).length

instance (p : FilePath) : Decidable p.TooLong := inferInstanceAs (Decidable (_ < _))

@[simp] theorem parent_child (p : FilePath) (name : Text) : (p.child name).parent = p := by
  simp [child, parent]

@[simp] theorem lastName_child (p : FilePath) (name : Text) : (p.child name).lastName = name := by
  simp [child, lastName]

theorem child_inj (p q : FilePath) (m n : Text) : p.child m = q.child n ↔ p = q ∧ m = n := by
  obtain ⟨s, ps⟩ := p
  obtain ⟨t, qs⟩ := q
  simp [child]
  grind

theorem direct_child (p : FilePath) (name : Text) (h : name ≠ upward) :
    (p.child name).direct = p.direct.child name := by
  simp [direct, child, goOn, h]

theorem direct_child_upward (p : FilePath) : (p.child upward).direct = p.direct.parent := by
  simp [direct, child, parent, goOn]

theorem foldl_goOn (names gone : List Text) (h : upward ∉ names) :
    names.foldl goOn gone = names.reverse ++ gone := by
  induction names generalizing gone with
  | nil => rfl
  | cons name rest ih =>
    rw [List.mem_cons, not_or] at h
    simp [goOn, Ne.symm h.1, ih _ h.2]

theorem upward_not_mem_foldl_goOn (names gone : List Text) (h : upward ∉ gone) :
    upward ∉ names.foldl goOn gone := by
  induction names generalizing gone with
  | nil => exact h
  | cons name rest ih =>
    refine ih _ ?_
    unfold goOn
    split
    · exact fun hm => h (List.mem_of_mem_tail hm)
    · rename_i hn
      simp [Ne.symm hn, h]

theorem upward_not_mem_direct (p : FilePath) : upward ∉ p.direct.names := by
  simpa [direct] using upward_not_mem_foldl_goOn p.names [] (by simp)

theorem direct_eq_self (p : FilePath) (h : upward ∉ p.names) : p.direct = p := by
  simp [direct, foldl_goOn p.names [] h]

@[simp] theorem direct_direct (p : FilePath) : p.direct.direct = p.direct :=
  direct_eq_self _ p.upward_not_mem_direct

theorem location_of_no_upward (p : FilePath) (h : upward ∉ p.names) :
    p.location = ⟨!p.start.isEmpty, p.names.map Utf8.nameBytes⟩ := by
  rw [location, direct_eq_self p h]

@[simp] theorem location_direct (p : FilePath) : p.direct.location = p.location := by
  rw [location, direct_direct]
  rfl

theorem location_child (p : FilePath) (name : Text) (h : name ≠ upward) :
    (p.child name).location = p.location.child (Utf8.nameBytes name) := by
  rw [location, direct_child p name h]
  simp [location, child, Location.child]

end FilePath

end Switchboard
