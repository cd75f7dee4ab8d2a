import Switchboard.Proofs.File.Contents
import Switchboard.Proofs.Json.Ascii
import Switchboard.Proofs.Text.Utf8
import Switchboard.Proofs.Transcript

/-!
# What a transcript writes

A line reaches the disk as soon as the open file has accepted it, be it by the flush, or by the
closing that follows a failed one. So between two calls nothing waits in a buffer, and every file
holds what it held before and the lines that it has accepted since.
-/

namespace Switchboard

open FileTree

/-- The file still stands where it was opened. -/
structure OpenFile.Attached (f : OpenFile) (tree : FileTree) : Prop where
  named : f.named = true
  there : ∃ contents, tree.occupancy f.path = .taken (.file contents)

/-- A line and the direct path of the file that has accepted it. -/
abbrev Entry := FilePath × Text

/-- What some lines come to in the file at a path. -/
def textAt (p : FilePath) (entries : List Entry) : Bytes :=
  (entries.filter fun entry => entry.1.location = p.location).flatMap fun entry =>
    Utf8.encodeLossy (entry.2 ++ [Text.newline])

variable {f accepted : OpenFile} {host : Host} {line : Text}

theorem textAt_append (p : FilePath) (entries more : List Entry) :
    textAt p (entries ++ more) = textAt p entries ++ textAt p more := by
  rw [textAt, List.filter_append, List.flatMap_append]
  rfl

theorem textAt_singleton (p : FilePath) (entry : Entry) :
    textAt p [entry] =
      if p.location = entry.1.location then Utf8.encodeLossy (entry.2 ++ [Text.newline]) else [] := by
  by_cases h : entry.1.location = p.location
  · simp [textAt, h]
  · simp [textAt, h, Ne.symm h]

namespace OpenFile

theorem accept_eq_ok (h : f.accept line = .ok accepted) :
    line.Encodable ∧ accepted = { f with buffer := f.buffer ++ Utf8.encodeLossy line } := by
  rw [accept] at h
  split at h
  · cases h
  split at h
  · cases h
  split at h
  · cases h
  · rename_i bytes hBytes
    cases h
    have hLine : line.Encodable := Utf8.encodable_of_encodeFrom hBytes
    rw [Utf8.encode_eq_ok line hLine] at hBytes
    cases hBytes
    exact ⟨hLine, by rw [Utf8.encodeLossy_of_encodable hLine]⟩

theorem accept_of_encodable (hWrite : f.breakages.findSome? Breakage.write = none)
    (hOpen : f.closed = false) (hLine : line.Encodable) :
    f.accept line = .ok { f with buffer := f.buffer ++ Utf8.encodeLossy line } := by
  rw [accept, hWrite, hOpen, Utf8.encode_eq_ok line hLine, Utf8.encodeLossy_of_encodable hLine]
  rfl

theorem flush_of_unbroken (h : f.breakages.findSome? Breakage.flush = none) (host : Host) :
    f.flush host = (.ok (), f.settle host) := by
  rw [flush, h]

theorem Attached.settle (h : f.Attached host.tree) : ∃ tree,
    f.settle host = ({ f with buffer := [] }, { host with tree }) ∧ f.Attached tree ∧
      ∀ p, tree.contentsAt p =
        host.tree.contentsAt p ++ if p.location = f.path.location then f.buffer else [] := by
  obtain ⟨contents, hThere⟩ := h.there
  have hOpen : host.tree.openToWrite f.path = .ok contents := by
    rw [openToWrite, hThere]
    exact read_eq_ok_iff.mpr hThere
  have hAppend : host.tree.append f.path f.buffer =
      .ok (host.tree.put f.path (.file (contents ++ f.buffer))) := by
    rw [FileTree.append, hOpen]
  obtain ⟨hAfter, hContents⟩ := append_spec hAppend
  refine ⟨_, ?_, ⟨h.named, _, hAfter⟩, ?_⟩
  · rw [OpenFile.settle, if_pos h.named, hAppend]
  · intro p
    rw [hContents]

theorem Attached.flush (h : f.Attached host.tree) :
    (∃ e, f.flush host = (.error e, f, host)) ∨ ∃ tree,
      f.flush host = (.ok (), { f with buffer := [] }, { host with tree }) ∧ f.Attached tree ∧
        ∀ p, tree.contentsAt p =
          host.tree.contentsAt p ++ if p.location = f.path.location then f.buffer else [] := by
  rw [OpenFile.flush]
  split
  · exact .inl ⟨_, rfl⟩
  · obtain ⟨tree, hSettle, hAfter⟩ := h.settle
    rw [hSettle]
    exact .inr ⟨tree, rfl, hAfter⟩

theorem Attached.close (h : f.Attached host.tree) : ∃ result tree,
    f.close host = (result, { host with tree }) ∧ f.Attached tree ∧
      ∀ p, tree.contentsAt p =
        host.tree.contentsAt p ++ if p.location = f.path.location then f.buffer else [] := by
  obtain ⟨tree, hSettle, hAfter⟩ := h.settle
  unfold OpenFile.close
  rw [hSettle]
  dsimp only
  split
  · exact ⟨_, tree, rfl, hAfter⟩
  · exact ⟨_, tree, rfl, hAfter⟩

end OpenFile

namespace Transcript

/-- Nothing that was accepted waits to be brought to the disk, and the open file stands there. -/
def Settled (t : Transcript) (tree : FileTree) : Prop :=
  ∀ f, t.file = some f → f.Attached tree ∧ f.buffer = []

/-- An action brings some lines to the disk and leaves a settled transcript. -/
structure Writes (entries : List Entry) (t : Transcript) (host : Host) (after : Transcript)
    (later : Host) : Prop where
  directory : after.directory = t.directory
  settled : after.Settled later.tree
  contents : ∀ p, later.tree.contentsAt p = host.tree.contentsAt p ++ textAt p entries

variable {t u v : Transcript} {later last : Host} {entries more : List Entry}

theorem settled_of_none (h : t.file = none) (tree : FileTree) : t.Settled tree := by
  intro f hFile
  rw [h] at hFile
  cases hFile

theorem Settled.extends {kept : FilePath → Prop} {tree after : FileTree} (h : t.Settled tree)
    (hTree : Extends kept tree after) : t.Settled after := by
  intro f hFile
  obtain ⟨⟨hNamed, contents, hThere⟩, hBuffer⟩ := h f hFile
  obtain ⟨later, hLater⟩ := hTree.file f.path contents (node?_of_occupancy_file hThere)
  exact ⟨⟨hNamed, later, hTree.occupancy_file hThere hLater⟩, hBuffer⟩

theorem Writes.refl (h : t.Settled host.tree) : Writes [] t host t host :=
  ⟨rfl, h, fun _ => (List.append_nil _).symm⟩

theorem Writes.trans (hFirst : Writes entries t host u later) (hNext : Writes more u later v last) :
    Writes (entries ++ more) t host v last := by
  refine ⟨hNext.directory.trans hFirst.directory, hNext.settled, fun p => ?_⟩
  rw [hNext.contents, hFirst.contents, textAt_append, List.append_assoc]

/-! ## Closing -/

theorem close_of_file (hFile : t.file = some f) (h : f.Attached host.tree) :
    (t.close host).1 = { t with file := none } ∧
      ∀ p, (t.close host).2.tree.contentsAt p =
        host.tree.contentsAt p ++ if p.location = f.path.location then f.buffer else [] := by
  obtain ⟨result, tree, hClose, _, hContents⟩ := h.close
  rw [close, hFile]
  dsimp only
  rw [hClose]
  cases result with
  | ok _ => exact ⟨rfl, hContents⟩
  | error e => exact ⟨rfl, hContents⟩

theorem file_close (t : Transcript) (host : Host) : (t.close host).1.file = none := by
  rw [close]
  split
  · assumption
  · rfl

theorem close_writes (h : t.Settled host.tree) :
    Writes [] t host (t.close host).1 (t.close host).2 := by
  have hNone := settled_of_none (t.file_close host) (t.close host).2.tree
  cases hFile : t.file with
  | none =>
    rw [close, hFile]
    exact .refl h
  | some f =>
    obtain ⟨hAttached, hBuffer⟩ := h f hFile
    obtain ⟨hClosed, hContents⟩ := close_of_file hFile hAttached
    refine ⟨by rw [hClosed], hNone, fun p => ?_⟩
    rw [hContents, hBuffer, ite_self]
    rfl

theorem giveUp_writes (e : Failure) (h : t.Settled host.tree) :
    Writes [] t host (t.giveUp e host).1 (t.giveUp e host).2 := by
  have hNoted : t.Settled
      (host.note .error .components ("Failed to write session log: " ++ e.message)).tree := h
  obtain ⟨hDirectory, hSettled, hContents⟩ := close_writes hNoted
  exact ⟨hDirectory, hSettled, hContents⟩

theorem settingChanged_writes (id : Text) (value : Json) (h : t.Settled host.tree) :
    Writes [] t host (t.settingChanged id value host).1 (t.settingChanged id value host).2 := by
  rw [settingChanged]
  split
  · exact close_writes h
  · exact .refl h

theorem hear_writes (changes : List Heard) (h : t.Settled host.tree) :
    Writes [] t host (t.hear changes host).1 (t.hear changes host).2 := by
  induction changes generalizing t host with
  | nil => exact .refl h
  | cons change rest ih =>
    have hChange := settingChanged_writes change.id (.bool change.value) h
    exact hChange.trans (ih hChange.settled)

theorem closeBehindBack_writes (h : t.Settled host.tree) :
    Writes [] t host (t.closeBehindBack host).2.1 (t.closeBehindBack host).2.2 := by
  rw [closeBehindBack]
  cases hFile : t.file with
  | none => exact .refl h
  | some f =>
    obtain ⟨hAttached, hBuffer⟩ := h f hFile
    obtain ⟨result, tree, hClose, hAfter, hContents⟩ := hAttached.close
    dsimp only
    rw [hClose]
    refine ⟨rfl, ?_, fun p => ?_⟩
    · intro closed hClosed
      cases hClosed
      exact ⟨⟨hAfter.named, hAfter.there⟩, rfl⟩
    · dsimp only
      rw [hContents, hBuffer, ite_self]
      rfl

theorem breakFile_writes (b : Breakage) (h : t.Settled host.tree) :
    Writes [] t host (t.breakFile b) host := by
  refine ⟨rfl, ?_, fun _ => (List.append_nil _).symm⟩
  intro broken hBroken
  obtain ⟨f, hFile, rfl⟩ := Option.map_eq_some_iff.mp hBroken
  obtain ⟨hAttached, hBuffer⟩ := h f hFile
  exact ⟨⟨hAttached.named, hAttached.there⟩, hBuffer⟩

/-! ## Opening -/

theorem openFile_of_ok {path directory : FilePath}
    (h : (openFile path directory host).1 = .ok f) :
    f = { path := path.direct, breakages := [host.faults.newFile] } ∧
      f.Attached (openFile path directory host).2.tree := by
  revert h
  rw [openFile]
  split
  · rintro ⟨⟩
  · rename_i made hMade
    have hFaults : made.faults = host.faults := by
      obtain ⟨tree, _, hHost, _⟩ := host.makeDirectories_eq directory
      rw [hMade] at hHost
      rw [show made = _ from hHost]
    split
    · rintro ⟨⟩
    · split
      · rintro ⟨⟩
      · rename_i tree hAppend
        intro h
        cases h
        obtain ⟨hThere, _⟩ := append_spec hAppend
        rw [hFaults]
        exact ⟨rfl, rfl, _, occupancy_direct hThere⟩

theorem openFile_contentsAt (path directory : FilePath) (host : Host) (p : FilePath) :
    (openFile path directory host).2.tree.contentsAt p = host.tree.contentsAt p := by
  obtain ⟨tree, hAdds, hHost, _⟩ := host.makeDirectories_eq directory
  have hSame : tree.contentsAt p = host.tree.contentsAt p :=
    Extends.contentsAt hAdds.grows trivial
  rw [openFile]
  split
  · rename_i hMade
    rw [hMade] at hHost
    obtain rfl := hHost
    exact hSame
  · rename_i hMade
    rw [hMade] at hHost
    obtain rfl := hHost
    split
    · exact hSame
    · split
      · exact hSame
      · rename_i hAppend
        obtain ⟨_, hContents⟩ := append_spec hAppend
        dsimp only
        rw [hContents, ite_self, List.append_nil, hSame]

theorem ensureOpen_writes (h : t.Settled host.tree) :
    Writes [] t host (t.ensureOpen host).2.1 (t.ensureOpen host).2.2 := by
  rw [ensureOpen]
  split
  · exact .refl h
  · rename_i hNone
    have hContents := openFile_contentsAt (t.directory.child (fileName host.clock)) t.directory host
    dsimp only
    split
    · rename_i f later hOpen
      obtain ⟨hFresh, hAttached⟩ := openFile_of_ok (congrArg Prod.fst hOpen)
      rw [hOpen] at hContents hAttached
      refine ⟨rfl, ?_, fun p => (hContents p).trans (List.append_nil _).symm⟩
      intro opened hFile
      cases hFile
      exact ⟨hAttached, by rw [hFresh]⟩
    · rename_i hOpen
      rw [hOpen] at hContents
      have hSame := fun p => (hContents p).trans (List.append_nil _).symm
      split
      · exact ⟨rfl, settled_of_none hNone _, hSame⟩
      · exact ⟨rfl, settled_of_none hNone _, hSame⟩

theorem ensureOpen_result (t : Transcript) (host : Host) :
    ((t.ensureOpen host).1 = .ok true ∧ (t.ensureOpen host).2.1.file.isSome = true) ∨
      ((t.ensureOpen host).2.1.file = none ∧ ((t.ensureOpen host).1 = .ok false ∨
        ∃ e : FileError, (t.ensureOpen host).1 = .error (.file e) ∧ e.isFromSystem = false)) := by
  rw [ensureOpen]
  split
  · rename_i hFile
    exact .inl ⟨rfl, by rw [hFile]; rfl⟩
  · rename_i hNone
    dsimp only
    split
    · exact .inl ⟨rfl, rfl⟩
    · rename_i e _ _
      split
      · exact .inr ⟨hNone, .inl rfl⟩
      · rename_i hSystem
        exact .inr ⟨hNone, .inr ⟨e, rfl, Bool.not_eq_true _ ▸ hSystem⟩⟩

/-! ## Writing -/

/-- The line, when the open file accepts it. -/
def acceptance (line : Text) (t : Transcript) : List Entry :=
  match t.file with
  | none => []
  | some f =>
    match f.accept (line ++ [Text.newline]) with
    | .error _ => []
    | .ok _ => [(f.path, line)]

theorem encodable_of_mem_acceptance {entry : Entry} (h : entry ∈ t.acceptance line) :
    entry.2.Encodable := by
  rw [acceptance] at h
  split at h
  · cases h
  · split at h
    · cases h
    · rename_i hAccept
      obtain rfl := List.mem_singleton.mp h
      exact (Utf8.encodable_ended_iff _).mp (OpenFile.accept_eq_ok hAccept).1

theorem writeOpen_writes (line : Text) (h : t.Settled host.tree) :
    Writes (t.acceptance line) t host (t.writeOpen line host).2.1 (t.writeOpen line host).2.2 := by
  cases hFile : t.file with
  | none =>
    rw [writeOpen, acceptance, hFile]
    exact .refl h
  | some f =>
    obtain ⟨hAttached, hBuffer⟩ := h f hFile
    rw [writeOpen, acceptance, hFile]
    dsimp only
    cases hAccept : f.accept (line ++ [Text.newline]) with
    | error e => exact giveUp_writes e h
    | ok accepted =>
      obtain ⟨_, rfl⟩ := OpenFile.accept_eq_ok hAccept
      rw [hBuffer, List.nil_append]
      have hAccepted : OpenFile.Attached
          { f with buffer := Utf8.encodeLossy (line ++ [Text.newline]) } host.tree :=
        ⟨hAttached.named, hAttached.there⟩
      dsimp only
      rcases hAccepted.flush with ⟨e, hFlush⟩ | ⟨tree, hFlush, hFlushed, hContents⟩
      · -- the closing brings the line to the disk
        rw [hFlush]
        dsimp only
        have hNoted : OpenFile.Attached
            { f with buffer := Utf8.encodeLossy (line ++ [Text.newline]) }
            (host.note .error .components ("Failed to write session log: " ++ e.message)).tree :=
          hAccepted
        obtain ⟨hClosed, hContents⟩ := close_of_file
          (t := { t with file := some { f with buffer := _ } }) rfl hNoted
        rw [giveUp]
        refine ⟨by rw [hClosed], settled_of_none (file_close _ _) _, fun p => ?_⟩
        rw [hContents, textAt_singleton]
        rfl
      · rw [hFlush]
        refine ⟨rfl, ?_, fun p => ?_⟩
        · intro opened hOpened
          cases hOpened
          exact ⟨⟨hFlushed.named, hFlushed.there⟩, rfl⟩
        · rw [textAt_singleton]
          exact hContents p

/-- The line, when logging is on and the file that is open then accepts it. -/
def writeAcceptance (loggingOn : Bool) (line : Text) (t : Transcript) (host : Host) : List Entry :=
  if loggingOn then (t.ensureOpen host).2.1.acceptance line else []

theorem write_writes (loggingOn : Bool) (line : Text) (h : t.Settled host.tree) :
    Writes (t.writeAcceptance loggingOn line host) t host (t.write loggingOn line host).2.1
      (t.write loggingOn line host).2.2 := by
  rw [write, writeAcceptance]
  cases loggingOn with
  | false => exact close_writes h
  | true =>
    have hOpen := ensureOpen_writes h
    have hResult := t.ensureOpen_result host
    simp only [if_true]
    generalize t.ensureOpen host = opening at hOpen hResult
    obtain ⟨result, opened, later⟩ := opening
    rcases hResult with ⟨rfl, _⟩ | ⟨hNone, hResult⟩
    · exact hOpen.trans (writeOpen_writes line hOpen.settled)
    · rw [acceptance, hNone]
      rcases hResult with rfl | ⟨e, rfl, _⟩
      · exact hOpen
      · exact hOpen

theorem path_of_mem_writeAcceptance {loggingOn : Bool} {entry : Entry} (hTidy : t.Tidy)
    (h : entry ∈ t.writeAcceptance loggingOn line host) :
    ∃ clock, entry.1 = (t.directory.child (fileName clock)).direct := by
  rw [writeAcceptance] at h
  split at h
  · obtain ⟨hDirectory, hOpened, _⟩ := ensureOpen_leaves hTidy host
    rw [acceptance] at h
    split at h
    · cases h
    · rename_i f hFile
      split at h
      · cases h
      · obtain rfl := List.mem_singleton.mp h
        rw [← hDirectory]
        exact hOpened f hFile
  · cases h

/-- Whether a file is open or can be opened, and takes what is handed to it. -/
def isWorking (t : Transcript) (host : Host) : Bool :=
  match t.ensureOpen host with
  | (.ok true, opened, _) =>
    opened.file.any fun f => !f.closed && (f.breakages.findSome? Breakage.write).isNone
  | _ => false

/-- A file that works accepts every line that has a byte form, and no other. -/
theorem writeAcceptance_of_isWorking (line : Text) (h : t.isWorking host = true) :
    (t.writeAcceptance true line host).map Prod.snd =
      if line.Encodable then [line] else [] := by
  rw [isWorking] at h
  rw [writeAcceptance, if_pos rfl]
  split at h
  · rename_i opened later hOpen
    obtain ⟨f, hFile, hTakes⟩ := (Option.any_eq_true _ _).mp h
    rw [Bool.and_eq_true, Bool.not_eq_true', Option.isNone_iff_eq_none] at hTakes
    rw [hOpen]
    dsimp only
    rw [acceptance, hFile]
    dsimp only
    by_cases hLine : line.Encodable
    · have hEncode := (Utf8.encodable_ended_iff line).mpr hLine
      rw [OpenFile.accept_of_encodable hTakes.2 hTakes.1 hEncode, if_pos hLine]
      rfl
    · rw [if_neg hLine]
      cases hAccept : f.accept (line ++ [Text.newline]) with
      | error e => rfl
      | ok accepted =>
        have hEncode := (OpenFile.accept_eq_ok hAccept).1
        exact absurd ((Utf8.encodable_ended_iff line).mp hEncode) hLine
  · cases h

/-! ## How a write ends -/

theorem unnameable_of_openFile {clock : Timestamp} {directory : FilePath} {e : FileError}
    (h : (openFile (directory.child (fileName clock)) directory host).1 = .error e)
    (hSystem : e.isFromSystem = false) :
    directory.Unnameable ∧ host.faults.makeDirectory = none := by
  obtain ⟨tree, _, _, hThere⟩ := host.makeDirectories_eq directory
  rw [openFile] at h
  split at h
  · rename_i refusal made hMade
    cases h
    exact Host.unnameable_of_makeDirectories (congrArg Prod.fst hMade) hSystem
  · rename_i made hMade
    have hNone : ¬ directory.Unnameable :=
      not_unnameable_of_occupancy (hThere (congrArg Prod.fst hMade)) (by simp)
    split at h
    · cases h
      cases hSystem
    · split at h
      · rename_i refusal hAppend
        cases h
        have hChild := (FilePath.unnameable_child _ _).mp (unnameable_of_append hAppend hSystem)
        exact absurd (hChild.resolve_right (not_unnameable_fileName clock)) hNone
      · cases h

theorem openFile_of_unnameable {directory : FilePath} (hUnnameable : directory.Unnameable)
    (hFault : host.faults.makeDirectory = none) (path : FilePath) :
    openFile path directory host = (.error directory.refusal, host) := by
  rw [openFile, Host.makeDirectories_of_unnameable hUnnameable hFault]

theorem ensureOpen_raises_iff (t : Transcript) (host : Host) :
    (∃ e, (t.ensureOpen host).1 = .error e) ↔
      t.file = none ∧ t.directory.Unnameable ∧ host.faults.makeDirectory = none := by
  rw [ensureOpen]
  cases t.file with
  | some f =>
    constructor
    · rintro ⟨_, ⟨⟩⟩
    · rintro ⟨⟨⟩, _⟩
  | none =>
    rw [and_iff_right rfl]
    constructor
    · rintro ⟨e, h⟩
      dsimp only at h
      split at h
      · cases h
      · rename_i refusal _ hOpen
        split at h
        · cases h
        · rename_i hSystem
          exact unnameable_of_openFile (congrArg Prod.fst hOpen) (Bool.eq_false_iff.mpr hSystem)
    · rintro ⟨hUnnameable, hFault⟩
      dsimp only
      rw [openFile_of_unnameable hUnnameable hFault]
      dsimp only
      rw [if_neg (by simp)]
      exact ⟨_, rfl⟩

/-- A write raises nothing, but where a file is to be opened in a directory whose path the system
cannot be given, and the system does not refuse to make that first. -/
theorem write_raises_iff (loggingOn : Bool) (line : Text) (t : Transcript) (host : Host) :
    (∃ e, (t.write loggingOn line host).1 = .error e) ↔ loggingOn = true ∧ t.file = none ∧
      t.directory.Unnameable ∧ host.faults.makeDirectory = none := by
  rw [← ensureOpen_raises_iff, write]
  cases loggingOn with
  | false =>
    constructor
    · rintro ⟨_, ⟨⟩⟩
    · rintro ⟨⟨⟩, _⟩
  | true =>
    rw [if_pos rfl, and_iff_right rfl]
    generalize t.ensureOpen host = opening
    obtain ⟨result, opened, later⟩ := opening
    rcases result with e | _ | _
    · rfl
    · constructor <;> rintro ⟨_, ⟨⟩⟩
    · constructor <;> rintro ⟨_, ⟨⟩⟩

theorem writeOpen_eq_true_iff (line : Text) (t : Transcript) (host : Host) :
    (t.writeOpen line host).1 = true ↔ ∃ f accepted, t.file = some f ∧
      f.accept (line ++ [Text.newline]) = .ok accepted ∧ (accepted.flush host).1 = .ok () := by
  rw [writeOpen]
  cases hFile : t.file with
  | none => simp
  | some f =>
    cases hAccept : f.accept (line ++ [Text.newline]) with
    | error e => simp [hAccept]
    | ok accepted =>
      obtain ⟨result, flushed, later, hFlush⟩ : ∃ result flushed later,
          accepted.flush host = (result, flushed, later) := ⟨_, _, _, rfl⟩
      cases result with
      | error e => simp [hAccept, hFlush]
      | ok _ => simp [hAccept, hFlush]

/-- A write tells that the line was written exactly when logging is on, and opening the file,
handing the line to it and flushing it have all succeeded. -/
theorem write_eq_true_iff (loggingOn : Bool) (line : Text) (t : Transcript) (host : Host) :
    (t.write loggingOn line host).1 = .ok true ↔ loggingOn = true ∧ ∃ opened later f accepted,
      t.ensureOpen host = (.ok true, opened, later) ∧ opened.file = some f ∧
        f.accept (line ++ [Text.newline]) = .ok accepted ∧ (accepted.flush later).1 = .ok () := by
  rw [write]
  cases loggingOn with
  | false => simp
  | true =>
    obtain ⟨result, opened, later, hOpen⟩ : ∃ result opened later,
        t.ensureOpen host = (result, opened, later) := ⟨_, _, _, rfl⟩
    rw [hOpen]
    cases result with
    | error e => simp
    | ok isOpen =>
      cases isOpen with
      | false => simp
      | true =>
        have hWritten := writeOpen_eq_true_iff line opened later
        simp only [if_true, true_and]
        constructor
        · intro h
          obtain ⟨f, accepted, hAccepted⟩ := hWritten.mp (Except.ok.inj h)
          exact ⟨opened, later, f, accepted, rfl, hAccepted⟩
        · rintro ⟨_, _, f, accepted, hSame, hAccepted⟩
          cases hSame
          exact congrArg Except.ok (hWritten.mpr ⟨f, accepted, hAccepted⟩)

theorem isOpen_writeOpen (line : Text) (t : Transcript) (host : Host) :
    (t.writeOpen line host).2.1.isOpen = (t.writeOpen line host).1 := by
  have hGivenUp : ∀ (e : Failure) (t : Transcript) (host : Host),
      (t.giveUp e host).1.isOpen = false := by
    intro e t host
    rw [giveUp, isOpen, file_close]
    rfl
  rw [writeOpen]
  split
  · rename_i hNone
    rw [isOpen, hNone]
    rfl
  · split
    · exact hGivenUp _ _ _
    · split
      · exact hGivenUp _ _ _
      · rfl

theorem isOpen_write_iff (loggingOn : Bool) (line : Text) (t : Transcript) (host : Host) :
    (t.write loggingOn line host).2.1.isOpen = true ↔
      (t.write loggingOn line host).1 = .ok true := by
  rw [write]
  split
  · have hResult := t.ensureOpen_result host
    generalize t.ensureOpen host = opening at hResult
    obtain ⟨result, opened, later⟩ := opening
    rcases hResult with ⟨rfl, _⟩ | ⟨hNone, rfl | ⟨e, rfl, _⟩⟩
    · dsimp only
      rw [isOpen_writeOpen, Except.ok.injEq]
    · change opened.file = none at hNone
      simp [isOpen, hNone]
    · change opened.file = none at hNone
      simp [isOpen, hNone]
  · simp [isOpen, file_close]

/-- Whether a file for the present time can be opened. -/
def canOpen (t : Transcript) (host : Host) : Bool :=
  (openFile (t.directory.child (fileName host.clock)) t.directory host).1.isOk

/-- While logging is on, a closed transcript opens its file again for a line that has a byte form,
and writes it, if the file can be opened and does not break. -/
theorem write_reopens (hNone : t.file = none) (hLine : line.Encodable)
    (hOpens : t.canOpen host = true) (hWrite : host.faults.newFile.write = none)
    (hFlush : host.faults.newFile.flush = none) :
    (t.write true line host).1 = .ok true ∧ (t.write true line host).2.1.isOpen = true := by
  obtain ⟨result, later, hOpen⟩ : ∃ result later,
      openFile (t.directory.child (fileName host.clock)) t.directory host = (result, later) :=
    ⟨_, _, rfl⟩
  obtain ⟨f, rfl⟩ : ∃ f, result = .ok f := by
    rw [canOpen, hOpen] at hOpens
    cases result with
    | ok f => exact ⟨f, rfl⟩
    | error e => cases hOpens
  obtain ⟨rfl, _⟩ := openFile_of_ok (congrArg Prod.fst hOpen)
  have hWritten : (t.write true line host).1 = .ok true := by
    refine (write_eq_true_iff true line t host).mpr ⟨rfl, ?_⟩
    rw [ensureOpen, hNone]
    dsimp only
    rw [hOpen]
    refine ⟨_, _, _, _, rfl, rfl, OpenFile.accept_of_encodable ?_ rfl
      ((Utf8.encodable_ended_iff line).mpr hLine), ?_⟩
    · simp [hWrite]
    · rw [OpenFile.flush_of_unbroken]
      simp [hFlush]
  exact ⟨hWritten, (isOpen_write_iff true line t host).mpr hWritten⟩

end Transcript

end Switchboard
