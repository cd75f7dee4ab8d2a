import Switchboard.History
import Switchboard.Proofs.File.Overgrowth
import Switchboard.Proofs.Transcript.Writing

/-!
# Transcripts and history beside what saving does

A transcript whose files are aside from the settings files is written alike on a bare host and on
one where settings have been saved, and so is a history file.
-/

namespace Switchboard

open FileTree

variable {places row : List FilePath} {met : Faults} {bare host : Host}

namespace OpenFile

/-- An open file that stands apart from settings files and their directories. -/
structure Aside (places row : List FilePath) (f : OpenFile) (tree : FileTree) : Prop where
  attached : f.Attached tree
  avoids : f.path.Avoids places
  off : ∀ d ∈ row, d.location ≠ f.path.location

variable {f : OpenFile}

theorem settle_overgrows (hAside : f.Aside places row bare.tree)
    (h : Host.Overgrows places row met bare host) :
    Same (Host.Overgrows places row met) (f.settle bare) (f.settle host) := by
  obtain ⟨contents, hThere⟩ := hAside.attached.there
  obtain ⟨_, _, hLeads, _⟩ :=
    leads_of_occupancy (names_ne_nil_of_occupancy_file hThere) hThere (.inl ⟨_, rfl⟩)
  rw [settle, settle, if_pos hAside.attached.named, if_pos hAside.attached.named]
  rcases h.tree.append hAside.avoids hAside.off hLeads f.buffer with
    ⟨e, hLeft, hRight⟩ | ⟨t, u, hLeft, hRight, hAfter⟩
  · rw [hLeft, hRight]
    exact .intro h
  · rw [hLeft, hRight]
    exact .intro ⟨hAfter, h.clock, h.faults, h.others⟩

theorem flush_overgrows (hAside : f.Aside places row bare.tree)
    (h : Host.Overgrows places row met bare host) :
    Same (Same (Host.Overgrows places row met)) (f.flush bare) (f.flush host) := by
  rw [flush, flush]
  split
  · exact .intro (.intro h)
  · exact .intro (settle_overgrows hAside h)

theorem close_overgrows (hAside : f.Aside places row bare.tree)
    (h : Host.Overgrows places row met bare host) :
    Same (Host.Overgrows places row met) (f.close bare) (f.close host) := by
  obtain ⟨_, hAfter⟩ := (settle_overgrows hAside h).parts
  rw [close, close]
  split
  · exact .intro hAfter
  · exact .intro hAfter

end OpenFile

namespace Transcript

structure Aside (places row : List FilePath) (directory : FilePath) : Prop where
  avoids : directory.Avoids places
  named : ∀ clock, (directory.child (fileName clock)).Avoids places
  opened : ∀ clock, (directory.child (fileName clock)).direct.Avoids places
  off : ∀ clock, ∀ d ∈ row, d.location ≠ (directory.child (fileName clock)).location

variable {t : Transcript}

theorem Aside.file {tree : FileTree} (hAside : Aside places row t.directory) (hTidy : t.Tidy)
    (hSettled : t.Settled tree) : ∀ f, t.file = some f → f.Aside places row tree := by
  intro f hFile
  obtain ⟨clock, hPath⟩ := hTidy f hFile
  refine ⟨(hSettled f hFile).1, ?_, ?_⟩
  · rw [hPath]
    exact hAside.opened clock
  · rw [hPath, FilePath.location_direct]
    exact hAside.off clock

theorem close_overgrows (hFile : ∀ f, t.file = some f → f.Aside places row bare.tree)
    (h : Host.Overgrows places row met bare host) :
    Same (Host.Overgrows places row met) (t.close bare) (t.close host) := by
  rw [close, close]
  cases hOpen : t.file with
  | none => exact .intro h
  | some f =>
    obtain ⟨result, after, later, hLeft, hRight, hAfter⟩ :=
      OpenFile.close_overgrows (hFile f hOpen) h
    dsimp only
    rw [hLeft, hRight]
    cases result with
    | ok _ => exact .intro (hAfter.note _ _ _ _ _)
    | error e => exact .intro ((hAfter.note _ _ _ _ _).note _ _ _ _ _)

theorem giveUp_overgrows (e : Failure)
    (hFile : ∀ f, t.file = some f → f.Aside places row bare.tree)
    (h : Host.Overgrows places row met bare host) :
    Same (Host.Overgrows places row met) (t.giveUp e bare) (t.giveUp e host) :=
  close_overgrows hFile (h.note _ _ _ _ _)

theorem openFile_overgrows {directory : FilePath} {name : Text}
    (hDirectory : directory.Avoids places) (hPath : (directory.child name).Avoids places)
    (hOff : ∀ d ∈ row, d.location ≠ (directory.child name).location)
    (h : Host.Overgrows places row met bare host) :
    Host.Overgrows places row met (openFile (directory.child name) directory bare).2
        (openFile (directory.child name) directory host).2 ∧
      ((∃ f, (openFile (directory.child name) directory bare).1 = .ok f ∧
          (openFile (directory.child name) directory host).1 = .ok f) ∨
        ∃ e g, (openFile (directory.child name) directory bare).1 = .error e ∧
          (openFile (directory.child name) directory host).1 = .error g ∧
          (e = g ∨ e.isFromSystem = true ∧ g.isFromSystem = true)) := by
  obtain ⟨tree, _, hTree, hMade⟩ := bare.makeDirectories_eq directory
  obtain ⟨hAkin, hAfter⟩ := h.makeDirectories hDirectory
  rw [openFile, openFile]
  generalize bare.makeDirectories directory = made at hTree hMade hAkin hAfter ⊢
  generalize host.makeDirectories directory = makes at hAkin hAfter ⊢
  obtain ⟨result, made⟩ := made
  obtain ⟨ended, makes⟩ := makes
  obtain rfl : made = { bare with tree } := hTree
  rcases hAkin with ⟨hLeft, hRight⟩ | ⟨e, g, hLeft, hRight, hSame⟩
  · obtain rfl : result = .ok () := hLeft
    obtain rfl : ended = .ok () := hRight
    have hFaults : makes.faults.openFile = bare.faults.openFile ∧
        makes.faults.newFile = bare.faults.newFile := by
      rw [hAfter.faults, h.others]
      exact ⟨rfl, rfl⟩
    dsimp only
    rw [hFaults.1, hFaults.2]
    cases bare.faults.openFile with
    | some message => exact ⟨hAfter, .inr ⟨_, _, rfl, rfl, .inl rfl⟩⟩
    | none =>
      rcases hAfter.tree.append hPath hOff (leads_child_of_occupancy (hMade rfl) name) [] with
        ⟨e, hLeft, hRight⟩ | ⟨t, u, hLeft, hRight, hGrown⟩
      · dsimp only at hLeft ⊢
        rw [hLeft, hRight]
        exact ⟨hAfter, .inr ⟨_, _, rfl, rfl, .inl rfl⟩⟩
      · dsimp only at hLeft ⊢
        rw [hLeft, hRight]
        exact ⟨⟨hGrown, hAfter.clock, hAfter.faults, hAfter.others⟩, .inl ⟨_, rfl, rfl⟩⟩
  · obtain rfl : result = .error e := hLeft
    obtain rfl : ended = .error g := hRight
    exact ⟨hAfter, .inr ⟨e, g, rfl, rfl, hSame⟩⟩

theorem ensureOpen_overgrows (hAside : Aside places row t.directory)
    (h : Host.Overgrows places row met bare host) :
    Same (Same (Host.Overgrows places row met)) (t.ensureOpen bare) (t.ensureOpen host) := by
  rw [ensureOpen, ensureOpen, h.clock]
  split
  · exact .intro (.intro h)
  · obtain ⟨hAfter, hResults⟩ := openFile_overgrows hAside.avoids (hAside.named bare.clock)
      (hAside.off bare.clock) h
    dsimp only
    generalize openFile _ t.directory bare = opening at hAfter hResults ⊢
    generalize openFile _ t.directory host = opens at hAfter hResults ⊢
    obtain ⟨result, after⟩ := opening
    obtain ⟨ended, later⟩ := opens
    rcases hResults with ⟨f, hLeft, hRight⟩ | ⟨e, g, hLeft, hRight, hSame⟩
    · obtain rfl : result = .ok f := hLeft
      obtain rfl : ended = .ok f := hRight
      exact .intro (.intro (hAfter.note _ _ _ _ _))
    · obtain rfl : result = .error e := hLeft
      obtain rfl : ended = .error g := hRight
      dsimp only
      rcases hSame with rfl | ⟨hLeft, hRight⟩
      · split
        · exact .intro (.intro (hAfter.note _ _ _ _ _))
        · exact .intro (.intro hAfter)
      · rw [if_pos hLeft, if_pos hRight]
        exact .intro (.intro (hAfter.note _ _ _ _ _))

theorem writeOpen_overgrows (line : Text)
    (hFile : ∀ f, t.file = some f → f.Aside places row bare.tree)
    (h : Host.Overgrows places row met bare host) :
    Same (Same (Host.Overgrows places row met)) (t.writeOpen line bare)
      (t.writeOpen line host) := by
  rw [writeOpen, writeOpen]
  cases hOpen : t.file with
  | none => exact .intro (.intro h)
  | some f =>
    obtain ⟨hAttached, hAvoids, hOff⟩ := hFile f hOpen
    dsimp only
    cases hAccept : f.accept (line ++ [Text.newline]) with
    | error e => exact .intro (giveUp_overgrows e hFile h)
    | ok accepted =>
      obtain ⟨_, rfl⟩ := OpenFile.accept_eq_ok hAccept
      have hAccepted : OpenFile.Aside places row
          { f with buffer := f.buffer ++ Utf8.encodeLossy (line ++ [Text.newline]) } bare.tree :=
        ⟨⟨hAttached.named, hAttached.there⟩, hAvoids, hOff⟩
      have hFlushes := OpenFile.flush_overgrows hAccepted h
      dsimp only
      rcases hAccepted.attached.flush with ⟨e, hFlush⟩ | ⟨tree, hFlush, _⟩
      · obtain ⟨_, _, _, hLeft, hRight, _, _, later, rfl, rfl, hAfter⟩ := hFlushes
        obtain ⟨rfl, rfl, rfl⟩ :
            _ = Except.error e ∧ _ = { f with buffer := _ } ∧ _ = bare := by
          simpa using hLeft.symm.trans hFlush
        rw [hLeft, hRight]
        refine .intro (giveUp_overgrows e ?_ hAfter)
        rintro _ ⟨⟩
        exact hAccepted
      · obtain ⟨_, _, _, hLeft, hRight, _, _, later, rfl, rfl, hAfter⟩ := hFlushes
        obtain ⟨rfl, rfl, rfl⟩ :
            _ = Except.ok () ∧ _ = { f with buffer := [] } ∧ _ = { bare with tree } := by
          simpa using hLeft.symm.trans hFlush
        rw [hLeft, hRight]
        exact .intro (.intro hAfter)

theorem write_overgrows (loggingOn : Bool) (line : Text) (hAside : Aside places row t.directory)
    (hTidy : t.Tidy) (hSettled : t.Settled bare.tree)
    (h : Host.Overgrows places row met bare host) :
    Same (Same (Host.Overgrows places row met)) (t.write loggingOn line bare)
      (t.write loggingOn line host) := by
  rw [write, write]
  split
  · have hWrites := ensureOpen_writes hSettled
    have hLeaves := ensureOpen_leaves hTidy bare
    obtain ⟨result, _, _, hLeft, hRight, opened, after, later, rfl, rfl, hAfter⟩ :=
      ensureOpen_overgrows hAside h
    rw [hLeft] at hWrites hLeaves
    rw [hLeft, hRight]
    cases result with
    | error e => exact .intro (.intro hAfter)
    | ok ready =>
      cases ready with
      | false => exact .intro (.intro hAfter)
      | true =>
        have hOpened : Aside places row opened.directory := by
          rw [hLeaves.directory]
          exact hAside
        obtain ⟨written, _, _, hLeft, hRight, hRest⟩ :=
          writeOpen_overgrows line (hOpened.file hLeaves.tidy hWrites.settled) hAfter
        dsimp only
        rw [hLeft, hRight]
        exact .intro hRest
  · exact .intro (close_overgrows (hAside.file hTidy hSettled) h)

theorem hear_overgrows (changes : List Heard)
    (hFile : ∀ f, t.file = some f → f.Aside places row bare.tree)
    (h : Host.Overgrows places row met bare host) :
    Same (Host.Overgrows places row met) (hear changes t bare) (hear changes t host) := by
  induction changes generalizing t bare host with
  | nil => exact .intro h
  | cons change rest ih =>
    rw [hear, hear, settingChanged, settingChanged]
    by_cases hOff : change.id = Descriptor.loggingEnabled ∧ ¬ (Json.bool change.value).isTruthy
    · rw [if_pos hOff, if_pos hOff]
      obtain ⟨closed, _, _, hLeft, hRight, hAfter⟩ := close_overgrows hFile h
      have hNone := t.file_close bare
      rw [hLeft] at hNone
      rw [hLeft, hRight]
      refine ih ?_ hAfter
      intro f hSome
      rw [hNone] at hSome
      cases hSome
    · rw [if_neg hOff, if_neg hOff]
      exact ih hFile h

end Transcript

namespace History

theorem writeFile_overgrows (h : History) (hPath : h.path.Avoids places)
    (hOff : ∀ d ∈ row, d.location ≠ h.path.location) (hLeads : bare.tree.Leads h.path)
    (hHosts : Host.Overgrows places row met bare host) :
    Same (Host.Overgrows places row met) (h.writeFile bare) (h.writeFile host) := by
  have hFault : host.faults.writeText = bare.faults.writeText := by
    rw [hHosts.faults, hHosts.others]
    rfl
  rw [writeFile, writeFile, hFault]
  split
  · exact .intro hHosts
  · rcases hHosts.tree.write hPath hOff hLeads [] with
      ⟨e, hLeft, hRight⟩ | ⟨t, u, hLeft, hRight, hAfter⟩
    · rw [hLeft, hRight]
      exact .intro hHosts
    · rw [hLeft, hRight]
      dsimp only
      split
      · exact .intro ⟨hAfter, hHosts.clock, hHosts.faults, hHosts.others⟩
      · exact .intro ⟨hAfter.put _ _, hHosts.clock, hHosts.faults, hHosts.others⟩

theorem save_overgrows (kept : Bool) (h : History) {directory : FilePath} {name : Text}
    (hName : h.path = directory.child name) (hDirectory : directory.Avoids places)
    (hPath : h.path.Avoids places) (hOff : ∀ d ∈ row, d.location ≠ h.path.location)
    (hHosts : Host.Overgrows places row met bare host) :
    Same (Host.Overgrows places row met) (h.save kept bare) (h.save kept host) := by
  obtain ⟨tree, _, hTree, hMade⟩ := bare.makeDirectories_eq directory
  obtain ⟨hAkin, hAfter⟩ := hHosts.makeDirectories hDirectory
  rw [save, save]
  split
  · rw [store, store, hName, FilePath.parent_child]
    generalize bare.makeDirectories directory = made at hTree hMade hAkin hAfter ⊢
    generalize host.makeDirectories directory = makes at hAkin hAfter ⊢
    obtain ⟨result, made⟩ := made
    obtain ⟨ended, makes⟩ := makes
    rcases hAkin with ⟨hLeft, hRight⟩ | ⟨e, g, hLeft, hRight, hSame⟩
    · obtain rfl : result = .ok () := hLeft
      obtain rfl : ended = .ok () := hRight
      have hLeads : made.tree.Leads h.path := by
        rw [hName, show made = _ from hTree]
        exact leads_child_of_occupancy (hMade rfl) name
      obtain ⟨written, _, _, hLeft, hRight, hWritten⟩ :=
        writeFile_overgrows h hPath hOff hLeads hAfter
      dsimp only
      rw [hLeft, hRight]
      cases written with
      | ok _ => exact .intro (hWritten.note _ _ _ _ _)
      | error e =>
        dsimp only
        split
        · exact .intro (hWritten.note _ _ _ _ _)
        · exact .intro hWritten
    · obtain rfl : result = .error e := hLeft
      obtain rfl : ended = .error g := hRight
      dsimp only
      rcases hSame with rfl | ⟨hLeft, hRight⟩
      · split
        · exact .intro (hAfter.note _ _ _ _ _)
        · exact .intro hAfter
      · rw [if_pos (show (Failure.file e).isFromSystem = true from hLeft),
          if_pos (show (Failure.file g).isFromSystem = true from hRight)]
        exact .intro (hAfter.note _ _ _ _ _)
  · exact .intro hHosts

end History

end Switchboard
