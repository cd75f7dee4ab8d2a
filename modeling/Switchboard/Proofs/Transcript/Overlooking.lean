import Switchboard.Proofs.File.Overlooking
import Switchboard.Proofs.Transcript

/-!
# Transcripts kept off a place

A transcript in a directory that leads neither to a place nor through it is written alike on hosts
that differ there.
-/

namespace Switchboard

variable {place : FilePath} {first second : FileTree} {host other : Host}

namespace OpenFile

def KeepsOff (place : FilePath) (f : OpenFile) : Prop :=
  f.path.KeepsOff place

abbrev Beside (place : FilePath) (first second : FileTree) :
    OpenFile × Host → OpenFile × Host → Prop :=
  Shared (KeepsOff place) (Host.Beside place first second)

variable {f : OpenFile}

theorem settle_beside (hOff : f.KeepsOff place) (h : Host.Beside place first second host other) :
    Beside place first second (f.settle host) (f.settle other) := by
  obtain ⟨tree, rfl, hTree⟩ := h
  rw [settle, settle]
  split
  · rcases hTree.append hOff f.buffer with ⟨e, hLeft, hRight⟩ | ⟨t, u, hLeft, hRight, hAfter⟩
    · rw [hLeft, hRight]
      exact .intro hOff ⟨tree, rfl, hTree⟩
    · rw [hLeft, hRight]
      exact .intro hOff ⟨u, rfl, hAfter⟩
  · exact .intro hOff ⟨tree, rfl, hTree⟩

theorem flush_beside (hOff : f.KeepsOff place) (h : Host.Beside place first second host other) :
    Same (Beside place first second) (f.flush host) (f.flush other) := by
  rw [flush, flush]
  split
  · exact .intro (.intro hOff h)
  · exact .intro (settle_beside hOff h)

theorem close_beside (hOff : f.KeepsOff place) (h : Host.Beside place first second host other) :
    Same (Host.Beside place first second) (f.close host) (f.close other) := by
  have hSettled := settle_beside hOff h
  rw [close, close]
  generalize f.settle host = settled at hSettled ⊢
  generalize f.settle other = settles at hSettled ⊢
  obtain ⟨hOff, hAfter⟩ := hSettled
  dsimp only
  split
  · exact .intro hAfter
  · exact .intro hAfter

end OpenFile

namespace Transcript

/-- Neither the directory nor any file in it that bears the name of a session leads to the place or
through it. -/
structure KeepsOff (place : FilePath) (t : Transcript) : Prop where
  directory : t.directory.KeepsOff place
  named : ∀ clock, (t.directory.child (fileName clock)).KeepsOff place
  opened : ∀ clock, (t.directory.child (fileName clock)).direct.KeepsOff place
  file : ∀ f, t.file = some f → f.KeepsOff place

abbrev Beside (place : FilePath) (first second : FileTree) :
    Transcript × Host → Transcript × Host → Prop :=
  Shared (KeepsOff place) (Host.Beside place first second)

variable {t : Transcript}

theorem KeepsOff.withFile (h : t.KeepsOff place) {f : OpenFile} (hFile : f.KeepsOff place)
    (path : Option FilePath) : KeepsOff place { t with path, file := some f } := by
  refine ⟨h.directory, h.named, h.opened, ?_⟩
  rintro _ ⟨⟩
  exact hFile

theorem KeepsOff.withoutFile (h : t.KeepsOff place) : KeepsOff place { t with file := none } :=
  ⟨h.directory, h.named, h.opened, nofun⟩

theorem close_beside (hOff : t.KeepsOff place) (h : Host.Beside place first second host other) :
    Beside place first second (t.close host) (t.close other) := by
  rw [close, close]
  cases hFile : t.file with
  | none => exact .intro hOff h
  | some f =>
    obtain ⟨result, after, later, hLeft, hRight, hAfter⟩ :=
      OpenFile.close_beside (hOff.file f hFile) h
    dsimp only
    rw [hLeft, hRight]
    cases result with
    | ok _ => exact .intro hOff.withoutFile (hAfter.note _ _ _)
    | error e => exact .intro hOff.withoutFile ((hAfter.note _ _ _).note _ _ _)

theorem openFile_beside {path directory : FilePath} (hPath : path.KeepsOff place)
    (hDirectory : directory.KeepsOff place) (h : Host.Beside place first second host other) :
    Same (Host.Beside place first second) (openFile path directory host)
      (openFile path directory other) := by
  obtain ⟨result, after, later, hLeft, hRight, tree, rfl, hTree⟩ := h.makeDirectories hDirectory
  rw [openFile, openFile, hLeft, hRight]
  cases result with
  | error e => exact .intro ⟨tree, rfl, hTree⟩
  | ok _ =>
    dsimp only
    split
    · exact .intro ⟨tree, rfl, hTree⟩
    · rcases hTree.append hPath [] with ⟨e, hLeft, hRight⟩ | ⟨v, w, hLeft, hRight, hAfter⟩
      · rw [hLeft, hRight]
        exact .intro ⟨tree, rfl, hTree⟩
      · rw [hLeft, hRight]
        exact .intro ⟨w, rfl, hAfter⟩

theorem ensureOpen_beside (hOff : t.KeepsOff place)
    (h : Host.Beside place first second host other) :
    Same (Beside place first second) (t.ensureOpen host) (t.ensureOpen other) := by
  have hClock : other.clock = host.clock := by
    obtain ⟨tree, rfl, _⟩ := h
    rfl
  rw [ensureOpen, ensureOpen, hClock]
  split
  · exact .intro (.intro hOff h)
  · obtain ⟨hPath, _⟩ :=
      openFile_spec (t.directory.child (fileName host.clock)) t.directory host
    obtain ⟨result, after, later, hLeft, hRight, hAfter⟩ :=
      openFile_beside (hOff.named host.clock) hOff.directory h
    dsimp only
    rw [hLeft, hRight]
    cases result with
    | ok f =>
      have hOpened : f.KeepsOff place := by
        rw [OpenFile.KeepsOff, hPath f (by rw [hLeft])]
        exact hOff.opened host.clock
      exact .intro (.intro (hOff.withFile hOpened _) (hAfter.note _ _ _))
    | error e =>
      dsimp only
      split
      · exact .intro (.intro hOff (hAfter.note _ _ _))
      · exact .intro (.intro hOff hAfter)

theorem giveUp_beside (e : Failure) (hOff : t.KeepsOff place)
    (h : Host.Beside place first second host other) :
    Beside place first second (t.giveUp e host) (t.giveUp e other) :=
  close_beside hOff (h.note _ _ _)

theorem writeOpen_beside (line : Text) (hOff : t.KeepsOff place)
    (h : Host.Beside place first second host other) :
    Same (Beside place first second) (t.writeOpen line host) (t.writeOpen line other) := by
  rw [writeOpen, writeOpen]
  split
  · exact .intro (.intro hOff h)
  · rename_i f hFile
    split
    · exact .intro (giveUp_beside _ hOff h)
    · rename_i accepted hAccept
      have hAccepted : accepted.KeepsOff place := by
        rw [OpenFile.KeepsOff, OpenFile.path_accept hAccept]
        exact hOff.file f hFile
      obtain ⟨result, _, _, hLeft, hRight, ⟨hFlushed, hAfter⟩⟩ :=
        OpenFile.flush_beside hAccepted h
      rw [hLeft, hRight]
      cases result with
      | error e =>
        exact .intro (giveUp_beside e (hOff.withFile hFlushed t.path) hAfter)
      | ok _ => exact .intro (.intro (hOff.withFile hFlushed t.path) hAfter)

theorem write_beside (loggingOn : Bool) (line : Text) (hOff : t.KeepsOff place)
    (h : Host.Beside place first second host other) :
    Same (Beside place first second) (t.write loggingOn line host)
      (t.write loggingOn line other) := by
  rw [write, write]
  split
  · obtain ⟨result, _, _, hLeft, hRight, ⟨hOff, hAfter⟩⟩ := ensureOpen_beside hOff h
    rw [hLeft, hRight]
    cases result with
    | error e => exact .intro (.intro hOff hAfter)
    | ok opened =>
      cases opened with
      | false => exact .intro (.intro hOff hAfter)
      | true =>
        obtain ⟨written, _, _, hLeft, hRight, ⟨hOff, hLater⟩⟩ := writeOpen_beside line hOff hAfter
        dsimp only
        rw [hLeft, hRight]
        exact .intro (.intro hOff hLater)
  · have hClosed := close_beside hOff h
    generalize t.close host = closed at hClosed ⊢
    generalize t.close other = closes at hClosed ⊢
    obtain ⟨hOff, hAfter⟩ := hClosed
    exact .intro (.intro hOff hAfter)

theorem hear_beside (changes : List Heard) (hOff : t.KeepsOff place)
    (h : Host.Beside place first second host other) :
    Beside place first second (hear changes t host) (hear changes t other) := by
  induction changes generalizing t host other with
  | nil => exact .intro hOff h
  | cons change rest ih =>
    have hChanged : Beside place first second
        (t.settingChanged change.id (.bool change.value) host)
        (t.settingChanged change.id (.bool change.value) other) := by
      rw [settingChanged, settingChanged]
      split
      · exact close_beside hOff h
      · exact .intro hOff h
    rw [hear, hear]
    generalize t.settingChanged change.id (.bool change.value) host = changed at hChanged ⊢
    generalize t.settingChanged change.id (.bool change.value) other = changes at hChanged ⊢
    obtain ⟨hOff, hAfter⟩ := hChanged
    exact ih hOff hAfter

end Transcript

end Switchboard
