import Switchboard.Backend
import Switchboard.Proofs.File.Overlooking
import Switchboard.Proofs.RecordFile.Operation

/-!
# Settings kept off a place

A settings file whose path leads neither to a place nor through it is read and written alike on
hosts that differ at that place.
-/

namespace Switchboard

namespace RecordFile

/-- Neither the file nor its directory leads to a place or through it. -/
def KeepsOff (place : FilePath) (f : RecordFile) : Prop :=
  f.path.parent.KeepsOff place ∧ f.path.KeepsOff place

variable {place : FilePath} {first second : FileTree} {f : RecordFile} {host other : Host}

abbrev Beside (place : FilePath) (first second : FileTree) :
    RecordFile × Host → RecordFile × Host → Prop :=
  Shared (KeepsOff place) (Host.Beside place first second)

theorem reading_beside (hOff : f.KeepsOff place) (h : Host.Beside place first second host other) :
    f.reading other = f.reading host := by
  obtain ⟨tree, rfl, hTree⟩ := h
  rw [reading_eq, reading_eq, hTree.occupancy_eq hOff.2]

theorem loadAll_beside (hOff : f.KeepsOff place) (h : Host.Beside place first second host other) :
    Same (Beside place first second) (f.loadAll host) (f.loadAll other) := by
  rw [loadAll, loadAll, reading_beside hOff h]
  cases f.reading host with
  | error e => exact .intro (.intro hOff h)
  | ok reading =>
    cases reading with
    | absent => exact .intro (.intro hOff (h.note _ _ _))
    | unreadable e => exact .intro (.intro hOff h)
    | undecodable cause => exact .intro (.intro hOff h)
    | notARecord => exact .intro (.intro hOff h)
    | record r => exact .intro (.intro hOff (h.note _ _ _))

theorem ensureLoaded_beside (hOff : f.KeepsOff place)
    (h : Host.Beside place first second host other) :
    Same (Beside place first second) (f.ensureLoaded host) (f.ensureLoaded other) := by
  rw [ensureLoaded, ensureLoaded]
  split
  · exact .intro (.intro hOff h)
  · obtain ⟨result, after, later, hLeft, hRight, hAfter⟩ := loadAll_beside hOff h
    rw [hLeft, hRight]
    cases result with
    | ok r => exact .intro hAfter
    | error e => exact .intro hAfter

theorem load_beside (id : Text) (hOff : f.KeepsOff place)
    (h : Host.Beside place first second host other) :
    Same (Beside place first second) (f.load id host) (f.load id other) := by
  obtain ⟨result, _, _, hLeft, hRight, ⟨hOff, hAfter⟩⟩ :=
    ensureLoaded_beside hOff h
  rw [load, load, hLeft, hRight]
  cases result with
  | error e => exact .intro (.intro hOff hAfter)
  | ok _ =>
    dsimp only
    split
    · exact .intro (.intro hOff hAfter)
    · exact .intro (.intro hOff hAfter)
    · exact .intro (.intro hOff (hAfter.note _ _ _))

theorem writeOut_beside (id : Text) (value : Json) (hOff : f.KeepsOff place)
    (h : Host.Beside place first second host other) :
    Same (Beside place first second) (f.writeOut id value host) (f.writeOut id value other) := by
  have hDirectory : f.directory.KeepsOff place := by
    rw [← FilePath.parent_child f.directory fileName]
    exact hOff.1
  have hTarget : (f.directory.child fileName).KeepsOff place := hOff.2
  obtain ⟨result, after, later, hLeft, hRight, hAfter⟩ :=
    h.replaceFile hDirectory hTarget (encode (f.data.put id value))
  unfold writeOut path
  dsimp only
  rw [hLeft, hRight]
  cases result with
  | ok _ => exact .intro (.intro hOff (hAfter.note _ _ _))
  | error e =>
    dsimp only
    split
    · exact .intro (.intro hOff hAfter)
    · exact .intro (.intro hOff hAfter)

theorem save_beside (id : Text) (value : Json) (hOff : f.KeepsOff place)
    (h : Host.Beside place first second host other) :
    Same (Beside place first second) (f.save id value host) (f.save id value other) := by
  obtain ⟨result, _, _, hLeft, hRight, ⟨hOff, hAfter⟩⟩ :=
    ensureLoaded_beside (f := f.pend id value) hOff h
  cases result with
  | ok _ =>
    rw [save_of_ensureLoaded_ok hLeft, save_of_ensureLoaded_ok hRight]
    exact writeOut_beside id value hOff hAfter
  | error e =>
    rw [save_of_ensureLoaded_error hLeft, save_of_ensureLoaded_error hRight]
    split
    · exact writeOut_beside id value hOff hAfter
    · exact .intro (.intro hOff hAfter)

end RecordFile

namespace Backend

def KeepsOff (place : FilePath) : Backend → Prop
  | file f => f.KeepsOff place
  | script _ => True

abbrev Beside (place : FilePath) (first second : FileTree) :
    Backend × Host → Backend × Host → Prop :=
  Shared (KeepsOff place) (Host.Beside place first second)

variable {place : FilePath} {first second : FileTree} {backend : Backend} {host other : Host}

theorem load_beside (id : Text) (hOff : backend.KeepsOff place)
    (h : Host.Beside place first second host other) :
    Same (Beside place first second) (backend.load id host) (backend.load id other) := by
  cases backend with
  | script s => exact .intro (.intro hOff h)
  | file f =>
    obtain ⟨result, _, _, hLeft, hRight, ⟨hOff, hAfter⟩⟩ :=
      RecordFile.load_beside id hOff h
    rw [load, load, hLeft, hRight]
    cases result with
    | error e => exact .intro (.intro hOff hAfter)
    | ok stored =>
      cases stored with
      | none => exact .intro (.intro hOff hAfter)
      | some b => exact .intro (.intro hOff hAfter)

theorem save_beside (id : Text) (value : Json) (hOff : backend.KeepsOff place)
    (h : Host.Beside place first second host other) :
    Same (Beside place first second) (backend.save id value host) (backend.save id value other) := by
  cases backend with
  | script s =>
    rw [save, save]
    split
    · exact .intro (.intro hOff h)
    · exact .intro (.intro hOff h)
    · exact .intro (.intro hOff h)
  | file f =>
    obtain ⟨result, _, _, hLeft, hRight, ⟨hOff, hAfter⟩⟩ :=
      RecordFile.save_beside id value hOff h
    rw [save, save, hLeft, hRight]
    exact .intro (.intro hOff hAfter)

end Backend

end Switchboard
