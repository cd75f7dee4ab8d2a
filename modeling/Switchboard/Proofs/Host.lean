import Switchboard.Host
import Switchboard.Proofs.File.Tree
import Switchboard.Proofs.Json.Ascii

/-!
# Replacing a file as a whole

A replacement that fails leaves every file as it was, though directories may have been made. One
that succeeds leaves the new contents where the path leads and every other file as it was. Without
faults it succeeds wherever a file stands already.
-/

namespace Switchboard

namespace FileTree

variable {t u : FileTree} {p : FilePath}

/-- The files that a new file at a path leaves alone. -/
def Apart (p q : FilePath) : Prop := q.location ≠ p.location

theorem apart_child (p q : FilePath) {m n : Text} (hPlain : Json.Ascii m)
    (hm : m ≠ FilePath.upward) (hn : n ≠ FilePath.upward) (h : n ≠ m) :
    Apart (p.child m) (q.child n) := by
  rw [Apart, FilePath.location_child p m hm, FilePath.location_child q n hn]
  intro hEq
  exact h (Utf8.eq_of_nameBytes_eq (fun _ => Json.lt_of_ascii hPlain)
    ((Location.child_inj _ _ _ _).mp hEq).2)

theorem extends_put_file (h : t.node? p ≠ some .directory) (contents : Bytes) :
    Extends (Apart p) t (t.put p (.file contents)) := by
  refine ⟨?_, ?_, ?_⟩
  · intro q hq
    rw [node?_put, if_neg, hq]
    intro hEq
    exact h (node?_congr hEq ▸ hq)
  · intro q old hq
    rw [node?_put]
    split
    · exact ⟨contents, rfl⟩
    · exact ⟨old, hq⟩
  · intro q hApart old
    rw [node?_put, if_neg hApart]

theorem occupancy_put_file {contents : Bytes} (hLeads : t.Leads p) (hNameable : ¬ p.Unnameable)
    (hLong : ¬ p.TooLong) (hNames : p.names ≠ []) (hBack : p.lastName ≠ FilePath.upward)
    (hName : ¬ p.NameTooLong) (hFree : t.occupancy p ≠ .taken .directory)
    (hPut : ∀ q, u.node? q = if q.location = p.location then some (.file contents) else t.node? q) :
    t.node? p ≠ some .directory ∧ u.occupancy p = .taken (.file contents) := by
  have hNode : t.node? p ≠ some .directory := by
    intro hNode
    rw [occupancy_of_leads hNameable hLong hNames hLeads, atEnd_of_node? hBack hName hNode] at hFree
    exact hFree rfl
  have hGrown : Extends (Apart p) t u :=
    (extends_put_file hNode contents).trans (extends_of_node? fun q => by rw [hPut, node?_put])
  refine ⟨hNode, ?_⟩
  rw [occupancy_of_leads hNameable hLong hNames (hGrown.leads hLeads)]
  refine atEnd_of_node? hBack hName ?_
  rw [hPut, if_pos rfl]

theorem node?_of_openToWrite {contents : Bytes} (h : t.openToWrite p = .ok contents) :
    t.node? p ≠ some .directory := by
  rw [openToWrite] at h
  split at h
  · rename_i hVacant
    obtain ⟨_, _, _, hEnd⟩ :=
      leads_of_occupancy (names_ne_nil_of_occupancy_vacant hVacant) hVacant (.inr rfl)
    rw [(node?_of_atEnd_vacant hEnd).2.2]
    rintro ⟨⟩
  · rw [node?_of_occupancy_file (read_eq_ok_iff.mp h)]
    rintro ⟨⟩

theorem eq_put_of_write {contents : Bytes} (h : t.write p contents = .ok u) :
    u = t.put p (.file contents) ∧ ∃ old, t.openToWrite p = .ok old := by
  rw [write] at h
  split at h
  · rename_i old hOpen
    cases h
    exact ⟨rfl, old, hOpen⟩
  · cases h

theorem extends_append {more : Bytes} (h : t.append p more = .ok u) : Extends (Apart p) t u := by
  rw [append] at h
  split at h
  · rename_i hOpen
    cases h
    exact extends_put_file (node?_of_openToWrite hOpen) _
  · cases h

end FileTree

namespace Host

open FileTree

/-- A host for samples, with some nodes on it and all the rest as usual. -/
def sample (nodes : List (FilePath × FileNode)) : Host where
  tree := .holding nodes
  clock := ⟨2024, 1, 2, 3, 4, 5⟩

/-- An outcome of which there is something, and it passes a test. -/
def passes {α : Type} (test : α × Host → Bool) (outcome : Except Failure α × Host) : Bool :=
  outcome.1.toOption.any fun result => test (result, outcome.2)

theorem exists_of_passes {α : Type} (test : α × Host → Bool) (outcome : Except Failure α × Host)
    (h : passes test outcome = true) :
    ∃ result after, outcome = (.ok result, after) ∧ test (result, after) = true := by
  obtain ⟨ended, after⟩ := outcome
  cases ended with
  | error e => cases h
  | ok result => exact ⟨result, after, rfl, h⟩

variable {host : Host} {directory target : FilePath} {contents : Bytes}

theorem makeDirectories_eq (host : Host) (path : FilePath) :
    ∃ tree, Adds (path.ancestors ++ [path]) host.tree tree ∧
      (host.makeDirectories path).2 = { host with tree } ∧
      ((host.makeDirectories path).1 = .ok () → tree.occupancy path = .taken .directory) := by
  rw [makeDirectories]
  split
  · exact ⟨host.tree, .refl _ _, rfl, fun hOk => by cases hOk⟩
  · obtain ⟨hAdds, hDirectory⟩ := host.tree.makeDirectories_spec path
    exact ⟨_, hAdds, rfl, hDirectory⟩

theorem extends_put_temporary (t : FileTree) (directory : FilePath) :
    Extends (Apart (directory.child t.unusedName)) t
      (t.put (directory.child t.unusedName) (.file [])) :=
  extends_put_file (by simp [node?_unusedName]) []

theorem makeDirectories_of_directory (hFaults : host.faults = {}) {path : FilePath}
    (h : host.tree.occupancy path = .taken .directory) :
    host.makeDirectories path = (.ok (), host) := by
  rw [makeDirectories]
  rw [hFaults]
  dsimp only
  rw [FileTree.makeDirectories_of_directory h]
  exact Prod.ext rfl (by rw [← hFaults])

theorem node?_remove_temporary (t : FileTree) (directory : FilePath) (node : FileNode)
    (q : FilePath) :
    ((t.put (directory.child t.unusedName) node).remove (directory.child t.unusedName)).node? q =
      t.node? q := by
  rw [node?_remove]
  split
  · rename_i hEq
    rw [node?_congr hEq, node?_unusedName]
  · rename_i hOther
    rw [node?_put, if_neg hOther]

theorem fillTemporary_ok {temporary : FilePath} {filled : Host}
    (h : host.fillTemporary directory temporary target contents = .ok filled) :
    host.tree.occupancy target ≠ .taken .directory ∧ filled =
      { host with tree := (host.tree.remove temporary).put target (.file contents) } := by
  rw [fillTemporary] at h
  split at h
  · cases h
  split at h
  · cases h
  split at h
  · cases h
  · rename_i hFree
    cases h
    exact ⟨hFree, rfl⟩

theorem isFromSystem_of_fillTemporary {temporary : FilePath} {e : FileError}
    (h : host.fillTemporary directory temporary target contents = .error e) :
    e.isFromSystem = true := by
  rw [fillTemporary] at h
  split at h
  · cases h
    rfl
  split at h
  · cases h
    rfl
  split at h
  · cases h
    rfl
  · cases h

theorem fillTemporary_of_file (host : Host) (hFaults : host.faults = {}) {old : Bytes}
    (hFile : host.tree.occupancy target = .taken (.file old)) (directory temporary : FilePath)
    (contents : Bytes) :
    ∃ filled, host.fillTemporary directory temporary target contents = .ok filled := by
  simp only [fillTemporary, hFaults, hFile]
  exact ⟨_, rfl⟩

/-- What is left of the host after a replacement: the same host with another tree. -/
theorem replaceFile_spec (host : Host) (directory target : FilePath) (contents : Bytes) :
    ∃ tree, (host.replaceFile directory target contents).2 = { host with tree } ∧
      ((∃ e, (host.replaceFile directory target contents).1 = .error e ∧
          Adds (directory.ancestors ++ [directory]) host.tree tree) ∨
        ((host.replaceFile directory target contents).1 = .ok () ∧ ∃ grown,
          Adds (directory.ancestors ++ [directory]) host.tree grown ∧
          grown.occupancy directory = .taken .directory ∧
          grown.occupancy target ≠ .taken .directory ∧
          ∀ q, tree.node? q =
            if q.location = target.location then some (.file contents) else grown.node? q)) := by
  obtain ⟨grown, hAdds, hHost, hDirectory⟩ := host.makeDirectories_eq directory
  rw [replaceFile]
  split
  · rename_i e made hMade
    rw [hMade] at hHost
    obtain rfl : made = _ := hHost
    exact ⟨grown, rfl, .inl ⟨e, rfl, hAdds⟩⟩
  · rename_i made hMade
    rw [hMade] at hHost hDirectory
    obtain rfl : made = _ := hHost
    have hDirectory := hDirectory rfl
    split
    · rename_i message _
      exact ⟨grown, rfl, .inl ⟨_, rfl, hAdds⟩⟩
    · split
      · exact ⟨grown, rfl, .inl ⟨_, rfl, hAdds⟩⟩
      · dsimp only
        split
        · rename_i filled hFilled
          obtain ⟨hFree, rfl⟩ := fillTemporary_ok hFilled
          refine ⟨_, rfl, .inr ⟨rfl, grown, hAdds, hDirectory, fun hTarget => hFree ?_, ?_⟩⟩
          · exact (extends_put_temporary grown directory).occupancy_directory hTarget
          · intro q
            rw [node?_put]
            split
            · rfl
            · exact node?_remove_temporary grown directory (.file []) q
        · rename_i e hFilled
          refine ⟨_, rfl, .inl ⟨e, rfl, hAdds.trans fun q => .inl ?_⟩⟩
          exact node?_remove_temporary grown directory (.file []) q

theorem replaceFile_child_spec (host : Host) (directory : FilePath) {name : Text}
    (contents : Bytes) (hGiven : ¬ name.Unnameable) (hBack : name ≠ FilePath.upward)
    (hName : ¬ (directory.child name).NameTooLong)
    (hLong : (directory.child name).TooLong → (directory.child name).Unnameable) :
    ∃ tree, (host.replaceFile directory (directory.child name) contents).2 = { host with tree } ∧
      ((∃ e, (host.replaceFile directory (directory.child name) contents).1 = .error e ∧
          Grows host.tree tree) ∨
        ((host.replaceFile directory (directory.child name) contents).1 = .ok () ∧
          tree.occupancy (directory.child name) = .taken (.file contents) ∧
          Extends (Apart (directory.child name)) host.tree tree)) := by
  obtain ⟨tree, hHost, hCases⟩ := host.replaceFile_spec directory (directory.child name) contents
  refine ⟨tree, hHost, hCases.imp (fun ⟨e, hError, hAdds⟩ => ⟨e, hError, hAdds.grows⟩) ?_⟩
  rintro ⟨hOk, grown, hAdds, hDirectory, hFree, hPut⟩
  have hLeads := leads_child_of_occupancy hDirectory name
  have hNameable : ¬ (directory.child name).Unnameable := by
    rw [FilePath.unnameable_child]
    exact not_or.mpr ⟨not_unnameable_of_occupancy hDirectory (by simp), hGiven⟩
  obtain ⟨hNode, hTaken⟩ := occupancy_put_file hLeads hNameable (mt hLong hNameable)
    (names_child_ne_nil directory name) (by rwa [FilePath.lastName_child]) hName hFree hPut
  refine ⟨hOk, hTaken, (hAdds.grows.extends _).trans ((extends_put_file hNode contents).trans ?_)⟩
  exact extends_of_node? fun q => by rw [hPut, node?_put]

theorem replaceFile_of_long (host : Host) (directory target : FilePath) (contents : Bytes)
    (hLong : TemporaryTooLong directory) :
    (host.replaceFile directory target contents).1 ≠ .ok () := by
  rw [replaceFile]
  split
  · nofun
  · split
    · nofun
    · rw [if_pos hLong]
      nofun

theorem replaceFile_of_file (host : Host) {directory : FilePath} {name : Text} {old : Bytes}
    (contents : Bytes) (hFaults : host.faults = {}) (hRoom : ¬ TemporaryTooLong directory)
    (hFile : host.tree.occupancy (directory.child name) = .taken (.file old)) :
    (host.replaceFile directory (directory.child name) contents).1 = .ok () := by
  have hDirectory := occupancy_parent hFile (.inl ⟨_, rfl⟩)
  have hNode := node?_of_occupancy_file hFile
  have hApart : Apart (directory.child host.tree.unusedName) (directory.child name) := by
    intro hEq
    rw [node?_congr hEq, node?_unusedName] at hNode
    cases hNode
  have hExtends := extends_put_temporary host.tree directory
  have hLater := hExtends.occupancy_kept hApart hFile
  rw [replaceFile]
  obtain ⟨filled, hFilled⟩ := fillTemporary_of_file
    { host with tree := host.tree.put (directory.child host.tree.unusedName) (.file []) } hFaults
    hLater directory (directory.child host.tree.unusedName) contents
  rw [makeDirectories_of_directory hFaults hDirectory]
  dsimp only
  rw [hFilled, if_neg hRoom, hFaults]

/-! ## The log -/

theorem makeDirectories_log (host : Host) (log : List LogLine) (path : FilePath) :
    ({ host with log } : Host).makeDirectories path =
      ((host.makeDirectories path).1, { (host.makeDirectories path).2 with log }) := by
  rw [makeDirectories, makeDirectories]
  dsimp only
  split
  · rfl
  · rfl

theorem fillTemporary_log (host : Host) (log : List LogLine)
    (directory temporary target : FilePath) (contents : Bytes) :
    ({ host with log } : Host).fillTemporary directory temporary target contents =
      (host.fillTemporary directory temporary target contents).map fun filled =>
        { filled with log } := by
  rw [fillTemporary, fillTemporary]
  dsimp only
  split
  · rfl
  · split
    · rfl
    · split
      · rfl
      · rfl

theorem replaceFile_log (host : Host) (log : List LogLine) (directory target : FilePath)
    (contents : Bytes) :
    ({ host with log } : Host).replaceFile directory target contents =
      ((host.replaceFile directory target contents).1,
        { (host.replaceFile directory target contents).2 with log }) := by
  rw [replaceFile, replaceFile, makeDirectories_log]
  obtain ⟨result, made⟩ := host.makeDirectories directory
  cases result with
  | error e => rfl
  | ok _ =>
    dsimp only
    split
    · rfl
    · split
      · rfl
      · generalize hFilled : fillTemporary directory (directory.child made.tree.unusedName) target
          contents { made with
            tree := made.tree.put (directory.child made.tree.unusedName) (.file []) } = filled
        have hLogged := fillTemporary_log { made with
            tree := made.tree.put (directory.child made.tree.unusedName) (.file []) } log directory
          (directory.child made.tree.unusedName) target contents
        rw [hFilled] at hLogged
        dsimp only at hLogged
        rw [hLogged]
        cases filled with
        | ok after => rfl
        | error e => rfl

/-! ## Paths that cannot be given to the system -/

theorem makeDirectories_of_unnameable {path : FilePath} (hUnnameable : path.Unnameable)
    (hFault : host.faults.makeDirectory = none) :
    host.makeDirectories path = (.error path.refusal, host) := by
  rw [makeDirectories, hFault]
  dsimp only
  rw [FileTree.makeDirectories_of_unnameable hUnnameable]

theorem unnameable_of_makeDirectories {path : FilePath} {e : FileError}
    (h : (host.makeDirectories path).1 = .error e) (hSystem : e.isFromSystem = false) :
    path.Unnameable ∧ host.faults.makeDirectory = none := by
  rw [makeDirectories] at h
  split at h
  · cases h
    cases hSystem
  · rename_i hFault
    exact ⟨FileTree.unnameable_of_makeDirectories h hSystem, hFault⟩

/-- Nothing is refused before the system is asked but a path that cannot be given to it. -/
theorem unnameable_of_replaceFile {e : FileError}
    (h : (host.replaceFile directory target contents).1 = .error e)
    (hSystem : e.isFromSystem = false) :
    directory.Unnameable ∧ host.faults.makeDirectory = none := by
  rw [replaceFile] at h
  split at h
  · rename_i refusal made hMade
    cases h
    exact unnameable_of_makeDirectories (congrArg Prod.fst hMade) hSystem
  · split at h
    · cases h
      cases hSystem
    · split at h
      · cases h
        cases hSystem
      · dsimp only at h
        split at h
        · cases h
        · rename_i refusal hFilled
          cases h
          rw [isFromSystem_of_fillTemporary hFilled] at hSystem
          cases hSystem

end Host

end Switchboard
