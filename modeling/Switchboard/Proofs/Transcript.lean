import Switchboard.Proofs.Host
import Switchboard.Transcript

/-!
# The files that a transcript touches

Whatever a transcript opens is a file in its directory whose name is stamped with a time. Writing
lines, hearing of changes and closing leave every file elsewhere as it was.
-/

namespace Switchboard

open FileTree

theorem OpenFile.settle_spec (f : OpenFile) (host : Host) :
    (f.settle host).1.path = f.path ∧
      Extends (Apart f.path) host.tree (f.settle host).2.tree := by
  rw [settle]
  split
  · split
    · rename_i hAppend
      exact ⟨rfl, extends_append hAppend⟩
    · exact ⟨rfl, .refl _ _⟩
  · exact ⟨rfl, .refl _ _⟩

theorem OpenFile.flush_spec (f : OpenFile) (host : Host) :
    (f.flush host).2.1.path = f.path ∧
      Extends (Apart f.path) host.tree (f.flush host).2.2.tree := by
  rw [flush]
  split
  · exact ⟨rfl, .refl _ _⟩
  · exact f.settle_spec host

theorem OpenFile.close_spec (f : OpenFile) (host : Host) :
    Extends (Apart f.path) host.tree (f.close host).2.tree := by
  unfold close
  dsimp only
  split
  · exact (f.settle_spec host).2
  · exact (f.settle_spec host).2

theorem OpenFile.path_accept {line : Text} {f accepted : OpenFile}
    (h : f.accept line = .ok accepted) : accepted.path = f.path := by
  rw [accept] at h
  split at h
  · cases h
  split at h
  · cases h
  split at h
  · cases h
  · cases h
    rfl

namespace Transcript

/-- Not a path at which a transcript in the directory can be kept. -/
def Elsewhere (directory p : FilePath) : Prop :=
  ∀ clock, Apart (directory.child (fileName clock)) p

theorem ascii_fileName (clock : Timestamp) : Json.Ascii (fileName clock) := by
  have hStamp : Json.Ascii clock.stamp :=
    Json.ascii_append (Json.ascii_append (Json.ascii_append (Json.ascii_append
      (Json.ascii_append (Json.ascii_append (Json.ascii_ofNat _) (Json.ascii_padded 2 _))
      (Json.ascii_padded 2 _)) (by decide)) (Json.ascii_padded 2 _)) (Json.ascii_padded 2 _))
      (Json.ascii_padded 2 _)
  exact Json.ascii_append (Json.ascii_append (by decide) hStamp) (by decide)

theorem not_unnameable_fileName (clock : Timestamp) : ¬ (fileName clock).Unnameable := by
  rintro ⟨c, hc, rfl | ⟨hSurrogate, _⟩⟩
  · exact absurd (ascii_fileName clock 0 hc) (by decide)
  · exact Json.encodable_of_ascii (ascii_fileName clock) c hc hSurrogate

theorem fileName_ne_upward (clock : Timestamp) : fileName clock ≠ FilePath.upward := by
  obtain ⟨rest, hRest⟩ : ∃ rest, fileName clock = CodePoint.ofChar 's' :: rest := ⟨_, rfl⟩
  rw [hRest]
  intro hEq
  have hFirst := (List.cons.inj hEq).1
  revert hFirst
  decide

theorem elsewhere_child (directory p : FilePath) {name : Text} (hName : name ≠ FilePath.upward)
    (h : ¬ Text.ofString "session_" <+: name) : Elsewhere directory (p.child name) := by
  intro clock
  refine apart_child directory p (ascii_fileName clock) (fileName_ne_upward clock) hName ?_
  rintro rfl
  refine h ⟨clock.stamp ++ ".log", ?_⟩
  rw [fileName, List.append_assoc]

def Tidy (t : Transcript) : Prop :=
  ∀ f, t.file = some f → ∃ clock, f.path = (t.directory.child (fileName clock)).direct

/-- An action leaves a tidy transcript for the same directory, and the files elsewhere. -/
structure Leaves (t : Transcript) (host : Host) (after : Transcript) (later : Host) : Prop where
  directory : after.directory = t.directory
  tidy : after.Tidy
  tree : Extends (Elsewhere t.directory) host.tree later.tree

variable {t u v : Transcript} {host later last : Host}

theorem Leaves.refl (h : t.Tidy) (host : Host) : Leaves t host t host :=
  ⟨rfl, h, .refl _ _⟩

theorem Leaves.trans (hFirst : Leaves t host u later) (hSecond : Leaves u later v last) :
    Leaves t host v last := by
  obtain ⟨hDirectory, hTidy, hTree⟩ := hSecond
  rw [hFirst.directory] at hDirectory hTree
  exact ⟨hDirectory, hTidy, hFirst.tree.trans hTree⟩

theorem Tidy.apart (h : t.Tidy) {f : OpenFile} (hFile : t.file = some f) {p : FilePath}
    (hp : Elsewhere t.directory p) : Apart f.path p := by
  obtain ⟨clock, hPath⟩ := h f hFile
  rw [hPath, Apart, FilePath.location_direct]
  exact hp clock

theorem tidy_of_none (h : t.file = none) : t.Tidy := by
  intro f hFile
  rw [h] at hFile
  cases hFile

theorem close_leaves (h : t.Tidy) (host : Host) :
    Leaves t host (t.close host).1 (t.close host).2 := by
  rw [close]
  split
  · exact .refl h host
  · rename_i f hFile
    have hTree := (f.close_spec host).mono fun p hp => h.apart hFile hp
    dsimp only
    split
    · exact ⟨rfl, tidy_of_none rfl, hTree⟩
    · exact ⟨rfl, tidy_of_none rfl, hTree⟩

theorem openFile_spec (path directory : FilePath) (host : Host) :
    (∀ f, (openFile path directory host).1 = .ok f → f.path = path.direct) ∧
      Extends (Apart path) host.tree (openFile path directory host).2.tree := by
  obtain ⟨tree, hAdds, hHost, _⟩ := host.makeDirectories_eq directory
  have hGrows := hAdds.grows
  rw [openFile]
  split
  · rename_i hMade
    rw [hMade] at hHost
    obtain rfl := hHost
    exact ⟨nofun, hGrows.extends _⟩
  · rename_i hMade
    rw [hMade] at hHost
    obtain rfl := hHost
    split
    · exact ⟨nofun, hGrows.extends _⟩
    · split
      · exact ⟨nofun, hGrows.extends _⟩
      · rename_i hAppend
        refine ⟨?_, (hGrows.extends _).trans (extends_append hAppend)⟩
        intro f hFile
        cases hFile
        rfl

theorem ensureOpen_leaves (h : t.Tidy) (host : Host) :
    Leaves t host (t.ensureOpen host).2.1 (t.ensureOpen host).2.2 := by
  rw [ensureOpen]
  split
  · exact .refl h host
  · dsimp only
    obtain ⟨hPath, hTree⟩ :=
      openFile_spec (t.directory.child (fileName host.clock)) t.directory host
    have hElsewhere := hTree.mono fun p (hp : Elsewhere t.directory p) => hp host.clock
    split
    · rename_i f later hOpen
      rw [hOpen] at hPath hElsewhere
      refine ⟨rfl, ?_, hElsewhere⟩
      intro opened hFile
      cases hFile
      exact ⟨host.clock, hPath _ rfl⟩
    · rename_i hOpen
      rw [hOpen] at hElsewhere
      split
      · exact ⟨rfl, h, hElsewhere⟩
      · exact ⟨rfl, h, hElsewhere⟩

theorem giveUp_leaves (e : Failure) (h : t.Tidy) (host : Host) :
    Leaves t host (t.giveUp e host).1 (t.giveUp e host).2 := by
  obtain ⟨hDirectory, hTidy, hTree⟩ := close_leaves h
    (host.note .error .components ("Failed to write session log: " ++ e.message))
  exact ⟨hDirectory, hTidy, hTree⟩

theorem tidy_of_path {f g : OpenFile} (h : t.Tidy) (hFile : t.file = some f)
    (hPath : g.path = f.path) : Tidy { t with file := some g } := by
  intro opened hOpened
  cases hOpened
  rw [hPath]
  exact h f hFile

theorem writeOpen_leaves (line : Text) (h : t.Tidy) (host : Host) :
    Leaves t host (t.writeOpen line host).2.1 (t.writeOpen line host).2.2 := by
  rw [writeOpen]
  split
  · exact .refl h host
  · rename_i f hFile
    split
    · exact giveUp_leaves _ h host
    · rename_i accepted hAccept
      have hAccepted := OpenFile.path_accept hAccept
      obtain ⟨hPath, hTree⟩ := accepted.flush_spec host
      rw [hAccepted] at hPath hTree
      have hElsewhere := hTree.mono fun p hp => h.apart hFile hp
      split
      · rename_i e flushed later hFlush
        rw [hFlush] at hPath hElsewhere
        have hTidy : Tidy { t with file := some flushed } := tidy_of_path h hFile hPath
        have hFlushed : Leaves t host { t with file := some flushed } later :=
          ⟨rfl, hTidy, hElsewhere⟩
        exact hFlushed.trans (giveUp_leaves e hTidy later)
      · rename_i flushed later hFlush
        rw [hFlush] at hPath hElsewhere
        exact ⟨rfl, tidy_of_path h hFile hPath, hElsewhere⟩

theorem write_leaves (loggingOn : Bool) (line : Text) (h : t.Tidy) (host : Host) :
    Leaves t host (t.write loggingOn line host).2.1 (t.write loggingOn line host).2.2 := by
  rw [write]
  split
  · have hOpen := ensureOpen_leaves h host
    split
    · rename_i hEnsure
      rwa [hEnsure] at hOpen
    · rename_i hEnsure
      rwa [hEnsure] at hOpen
    · rename_i opened later hEnsure
      rw [hEnsure] at hOpen
      exact hOpen.trans (writeOpen_leaves line hOpen.tidy later)
  · exact close_leaves h host

theorem hear_leaves (changes : List Heard) (h : t.Tidy) (host : Host) :
    Leaves t host (hear changes t host).1 (hear changes t host).2 := by
  induction changes generalizing t host with
  | nil => exact .refl h host
  | cons change rest ih =>
    have hChange : Leaves t host (t.settingChanged change.id (.bool change.value) host).1
        (t.settingChanged change.id (.bool change.value) host).2 := by
      rw [settingChanged]
      split
      · exact close_leaves h host
      · exact .refl h host
    exact hChange.trans (ih hChange.tidy _)

end Transcript

end Switchboard
