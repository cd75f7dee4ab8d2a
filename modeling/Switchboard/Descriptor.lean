import Switchboard.Failure

/-!
# Setting descriptors

A descriptor says what there is to know about a switch before anyone has set it. A table may give
any values: they are shown as they are, and a switch asks for a restart when its value there counts
as something. A table of descriptors becomes an index when no two of them share an identifier.
-/

namespace Switchboard

structure Descriptor where
  id : Text
  default : Json
  help : Json
  requiresRestart : Json
  deriving DecidableEq

namespace Descriptor

def loggingEnabled : Text := "logging_enabled"

def mouseEnabled : Text := "mouse_enabled"

def saveHistory : Text := "save_history"

def confirmQuit : Text := "confirm_quit"

def table : List Descriptor :=
  [⟨loggingEnabled, false, .str "enables/disables session logging", false⟩,
    ⟨mouseEnabled, false, .str "experimental mouse-driven scrollback", true⟩,
    ⟨saveHistory, false, .str "save command history between sessions", false⟩,
    ⟨confirmQuit, true, .str "ask for confirmation before quitting", false⟩]

end Descriptor

/-- Descriptors in the order of their declaration, no two with one identifier. -/
structure DescriptorIndex where
  descriptors : List Descriptor
  nodup : (descriptors.map Descriptor.id).Nodup

namespace DescriptorIndex

/-- The identifier of the first descriptor that repeats the identifier of an earlier one; the first
argument lists the identifiers seen before. -/
def firstRepeated? (seen : List Text) : List Descriptor → Option Text
  | [] => none
  | d :: rest => if d.id ∈ seen then some d.id else firstRepeated? (d.id :: seen) rest

theorem firstRepeated?_eq_none_iff (seen : List Text) (ds : List Descriptor) :
    firstRepeated? seen ds = none ↔
      (ds.map Descriptor.id).Nodup ∧ ∀ d ∈ ds, d.id ∉ seen := by
  induction ds generalizing seen with
  | nil => simp [firstRepeated?]
  | cons d rest ih =>
    by_cases h : d.id ∈ seen
    · simp [firstRepeated?, h]
    · simp only [firstRepeated?, if_neg h, ih, List.map_cons, List.nodup_cons, List.mem_cons,
        List.mem_map, not_or, not_exists, not_and]
      constructor
      · rintro ⟨nodup, fresh⟩
        refine ⟨⟨fun e he => (fresh e he).1, nodup⟩, ?_⟩
        rintro e (rfl | he)
        · exact h
        · exact (fresh e he).2
      · rintro ⟨⟨head, nodup⟩, fresh⟩
        exact ⟨nodup, fun e he => ⟨head e he, fresh e (.inr he)⟩⟩

def build (ds : List Descriptor) : Except Failure DescriptorIndex :=
  match h : firstRepeated? [] ds with
  | some id => .error (.duplicateId id)
  | none => .ok ⟨ds, ((firstRepeated?_eq_none_iff [] ds).1 h).1⟩

def entries (index : DescriptorIndex) : Record Text Descriptor :=
  index.descriptors.map fun d => (d.id, d)

def builtin : DescriptorIndex := ⟨Descriptor.table, by decide⟩

end DescriptorIndex

end Switchboard
