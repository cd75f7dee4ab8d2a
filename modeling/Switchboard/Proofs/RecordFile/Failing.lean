import Switchboard.Proofs.RecordFile.Unreadable

/-!
# Saves that fail

A save that fails leaves every file as it was, the temporary one gone, and has made missing
directories of the settings path at most. It fails in words of the keeper, with the refusal of the
system as their cause, but for two kinds of paths: one that cannot even be asked about, and one that
cannot be given to it.
-/

namespace Switchboard.RecordFile

open FileTree

/-- A failed save in words of the keeper: the record could not be written, or the file could not be
read before. -/
inductive Reported (f : RecordFile) (host : Host) (e : Failure) : Prop
  | unwritten (contents : Bytes) (refusal : FileError)
    (hRefused : (host.replaceFile f.directory f.path contents).1 = .error refusal)
    (hSystem : refusal.isFromSystem = true)
    (hWords : e = f.failure "save" refusal.message (some (.file refusal)))
  | unread (refusal : FileError) (hUnread : f.loaded = false)
    (hLoad : (f.loadAll host).1 = .error e)
    (hWords : e = f.failure "read" refusal.message (some (.file refusal)))

/-- The keeper asks about its path before it reads the file, and such a path cannot be asked
about. -/
def Unaskable (f : RecordFile) (host : Host) : Prop :=
  f.loaded = false ∧ host.tree.occupancy f.path = .nameTooLong

/-- The system cannot be given the path, which is found out when its directory is to be made. -/
def Unnameable (f : RecordFile) (host : Host) : Prop :=
  f.path.Unnameable ∧ host.faults.makeDirectory = none

variable {f : RecordFile} {host : Host} {id : Text} {value : Json} {e : Failure}

theorem Reported.isPersistence (h : Reported f host e) : e.isPersistence = true := by
  cases h with
  | unwritten _ _ _ _ hWords => rw [hWords]; rfl
  | unread _ _ _ hWords => rw [hWords]; rfl

theorem unnameable_path (f : RecordFile) : f.path.Unnameable ↔ f.directory.Unnameable := by
  rw [path, FilePath.unnameable_child]
  exact or_iff_left (by decide)

/-! ## Writing -/

theorem writeOut_error (h : (f.writeOut id value host).1 = .error e) : ∃ contents refusal,
    (host.replaceFile f.directory f.path contents).1 = .error refusal ∧
      e = (if refusal.isFromSystem then f.failure "save" refusal.message (some (.file refusal))
        else .file refusal) ∧
      (f.writeOut id value host).2.2 =
        (host.replaceFile f.directory f.path contents).2 := by
  obtain ⟨result, after, hReplace⟩ : ∃ result after,
      host.replaceFile f.directory f.path (encode (f.data.put id value)) = (result, after) :=
    ⟨_, _, rfl⟩
  have hSame : RecordFile.path { f with data := f.data.put id value } = f.path := rfl
  refine ⟨encode (f.data.put id value), ?_⟩
  unfold writeOut at h ⊢
  dsimp only at h ⊢
  rw [hSame, hReplace] at h ⊢
  cases result with
  | ok _ => cases h
  | error refusal =>
    dsimp only at h ⊢
    by_cases hSystem : refusal.isFromSystem = true
    · rw [if_pos hSystem] at h ⊢
      cases h
      refine ⟨refusal, rfl, ?_, rfl⟩
      rw [if_pos hSystem]
      rfl
    · rw [if_neg hSystem] at h ⊢
      cases h
      refine ⟨refusal, rfl, ?_, rfl⟩
      rw [if_neg hSystem]

theorem adds_writeOut (h : (f.writeOut id value host).1 = .error e) :
    Adds (f.directory.ancestors ++ [f.directory]) host.tree
      (f.writeOut id value host).2.2.tree := by
  obtain ⟨contents, refusal, hRefused, _, hHost⟩ := writeOut_error h
  obtain ⟨tree, hTree, ⟨_, _, hAdds⟩ | ⟨hOk, _⟩⟩ :=
    host.replaceFile_spec f.directory f.path contents
  · rw [hHost, hTree]
    exact hAdds
  · rw [hRefused] at hOk
    cases hOk

/-! ## Reading before -/

theorem attempt_eq_none_iff : f.attempt host = none ↔
    host.tree.occupancy f.path = .nameTooLong ∨
      ∃ refusal, f.reading host = .ok (.unreadable refusal) := by
  rw [attempt]
  constructor
  · intro h
    cases hReading : f.reading host with
    | ok reading =>
      rw [hReading] at h
      cases reading with
      | unreadable refusal => exact .inr ⟨refusal, rfl⟩
      | _ => cases h
    | error refusal =>
      rw [reading_eq] at hReading
      split at hReading
      · split at hReading
        · cases hReading
        · cases hReading
        · cases hReading
      · exact .inl ‹_›
      · cases hReading
  · rintro (hLong | ⟨refusal, hReading⟩)
    · rw [reading_eq, hLong]
    · rw [hReading]
      rfl

theorem loadAll_of_nameTooLong (hLong : host.tree.occupancy f.path = .nameTooLong) :
    f.loadAll host = (.error (.file (.nameTooLong f.path)), f, host) := by
  have hReading : f.reading host = .error (.nameTooLong f.path) := by rw [reading_eq, hLong]
  rw [loadAll, hReading]

theorem save_of_unaskable (h : f.Unaskable host) (id : Text) (value : Json) :
    (f.save id value host).1 = .error (.file (.nameTooLong f.path)) := by
  rw [save_of_failed_load h.1 (loadAll_of_nameTooLong (f := f.pend id value) h.2)]
  rfl

/-! ## Failed saves -/

theorem save_error_of_settled (hLoaded : ((f.pend id value).settled host).loaded = true)
    (h : (f.save id value host).1 = .error e) :
    (∃ contents refusal,
      (host.replaceFile f.directory f.path contents).1 = .error refusal ∧
        e = (if refusal.isFromSystem then f.failure "save" refusal.message (some (.file refusal))
          else .file refusal)) ∧
      Adds (f.directory.ancestors ++ [f.directory]) host.tree (f.save id value host).2.2.tree := by
  obtain ⟨log, hWritten, _⟩ := save_spec id value f host
  rw [hWritten hLoaded] at h ⊢
  have hDirectory : ((f.pend id value).settled host).directory = f.directory :=
    directory_settled _ host
  have hPath : ((f.pend id value).settled host).path = f.path := path_settled _ host
  have hAdds := adds_writeOut h
  obtain ⟨contents, refusal, hRefused, hWords, _⟩ := writeOut_error h
  rw [hDirectory] at hAdds hRefused
  rw [hPath, Host.replaceFile_log] at hRefused
  rw [failure, hPath] at hWords
  exact ⟨⟨contents, refusal, hRefused, hWords⟩, hAdds⟩

theorem reported_iff_of_settled (hLoaded : ((f.pend id value).settled host).loaded = true)
    (h : (f.save id value host).1 = .error e) :
    Reported f host e ↔ ¬ f.Unaskable host ∧ ¬ f.Unnameable host := by
  obtain ⟨⟨contents, refusal, hRefused, hWords⟩, _⟩ := save_error_of_settled hLoaded h
  have hAsked : ¬ f.Unaskable host := by
    rintro ⟨hUnread, hLong⟩
    rw [loaded_settled, loaded_pend, attempt_pend, hUnread,
      attempt_eq_none_iff.mpr (.inl hLong)] at hLoaded
    cases hLoaded
  cases hSystem : refusal.isFromSystem with
  | true =>
    rw [if_pos hSystem] at hWords
    refine ⟨fun _ => ⟨hAsked, ?_⟩, fun _ => .unwritten contents refusal hRefused hSystem hWords⟩
    rintro ⟨hUnnameable, hFault⟩
    rw [unnameable_path] at hUnnameable
    rw [Host.replaceFile, Host.makeDirectories_of_unnameable hUnnameable hFault] at hRefused
    obtain rfl : f.directory.refusal = refusal := Except.error.inj hRefused
    simp at hSystem
  | false =>
    rw [if_neg (by simp [hSystem])] at hWords
    constructor
    · intro hReported
      have hPersistence := hReported.isPersistence
      rw [hWords] at hPersistence
      cases hPersistence
    · rintro ⟨_, hNamed⟩
      obtain ⟨hUnnameable, hFault⟩ := Host.unnameable_of_replaceFile hRefused hSystem
      exact absurd ⟨(unnameable_path f).mpr hUnnameable, hFault⟩ hNamed

theorem reported_iff_of_unread (hUnread : f.loaded = false) (hAttempt : f.attempt host = none)
    (h : (f.save id value host).1 = .error e) :
    Reported f host e ↔ ¬ f.Unaskable host ∧ ¬ f.Unnameable host := by
  rcases attempt_eq_none_iff.mp hAttempt with hLong | ⟨refusal, hReading⟩
  · have hAsked : f.Unaskable host := ⟨hUnread, hLong⟩
    rw [save_of_unaskable hAsked] at h
    cases h
    constructor
    · intro hReported
      cases hReported.isPersistence
    · rintro ⟨hNot, _⟩
      exact absurd hAsked hNot
  · have hOccupancy := reading_eq f host
    rw [hReading] at hOccupancy
    rw [(save_of_unreadable hUnread hReading id value).1] at h
    cases h
    refine ⟨fun _ => ⟨?_, ?_⟩, fun _ => .unread refusal hUnread ?_ rfl⟩
    · rintro ⟨_, hLong⟩
      rw [hLong] at hOccupancy
      cases hOccupancy
    · rintro ⟨hUnnameable, _⟩
      rw [occupancy, if_pos hUnnameable] at hOccupancy
      cases hOccupancy
    · rw [loadAll, hReading]

theorem node?_path_of_adds {t u : FileTree} (hBack : FilePath.upward ∉ f.directory.names)
    (h : Adds (f.directory.ancestors ++ [f.directory]) t u) : u.node? f.path = t.node? f.path := by
  rcases h f.path with hSame | ⟨_, _, q, hq, hPlace⟩
  · exact hSame
  · obtain ⟨_, hPrefix⟩ := FilePath.prefix_of_mem_ancestors hq
    have hNames : FilePath.upward ∉ f.path.names := by
      rw [path, FilePath.child, List.mem_append]
      exact not_or.mpr ⟨hBack, by decide⟩
    rw [FilePath.location_of_no_upward _ hNames,
      FilePath.location_of_no_upward q fun hMem => hBack (hPrefix.subset hMem)] at hPlace
    have hLength := congrArg (fun l => l.names.length) hPlace
    have hShort := hPrefix.length_le
    simp only [path, FilePath.child, List.length_map, List.length_append,
      List.length_singleton] at hLength
    omega

/-- A save that fails changes no file, though it may have made directories, and it fails in words of
the keeper exactly when its path can be asked about and given to the system. -/
theorem failed_save_changes_no_file (f : RecordFile) (host : Host) (id : Text) (value : Json)
    (e : Failure) (h : (f.save id value host).1 = .error e) :
    (Reported f host e ↔ ¬ f.Unaskable host ∧ ¬ f.Unnameable host) ∧
      Adds (f.directory.ancestors ++ [f.directory]) host.tree
        (f.save id value host).2.2.tree ∧
      (∀ contents, host.tree.read f.path = .ok contents →
        (f.save id value host).2.2.tree.read f.path = .ok contents) ∧
      (FilePath.upward ∉ f.directory.names →
        (f.save id value host).2.2.tree.node? f.path = host.tree.node? f.path) := by
  have hAdds : Adds (f.directory.ancestors ++ [f.directory]) host.tree
      (f.save id value host).2.2.tree := by
    cases hLoaded : ((f.pend id value).settled host).loaded with
    | true => exact (save_error_of_settled hLoaded h).2
    | false =>
      obtain ⟨_, hUnread, hAttempt⟩ := settled_of_not_loaded hLoaded
      rw [tree_save_of_unsettled (f := f) id value hUnread hAttempt]
      exact .refl _ _
  refine ⟨?_, hAdds, ?_, fun hBack => node?_path_of_adds hBack hAdds⟩
  · cases hLoaded : ((f.pend id value).settled host).loaded with
    | true => exact reported_iff_of_settled hLoaded h
    | false =>
      obtain ⟨_, hUnread, hAttempt⟩ := settled_of_not_loaded hLoaded
      exact reported_iff_of_unread hUnread hAttempt h
  · intro contents hRead
    have hFile := read_eq_ok_iff.mp hRead
    have hKept := (hAdds.grows.same f.path trivial contents).mp (node?_of_occupancy_file hFile)
    exact read_eq_ok_iff.mpr (hAdds.grows.occupancy_file hFile hKept)

def fullHost : Host :=
  { Host.sample [] with faults := { replaceFile := some "No space left on device" } }

/-- The directory has been made and the temporary file has been filled when the last step fails. -/
theorem failed_replacement_changes_no_file :
    (RecordFile.save "a" true { directory := ⟨"/", ["c"]⟩ } fullHost).1 =
        .error (.persistence "Failed to save /c/settings.json: No space left on device"
          (some (.file (.device "No space left on device")))) ∧
      Reported { directory := ⟨"/", ["c"]⟩ } fullHost
        (.persistence "Failed to save /c/settings.json: No space left on device"
          (some (.file (.device "No space left on device")))) ∧
      (RecordFile.save "a" true { directory := ⟨"/", ["c"]⟩ } fullHost).2.2.tree =
        .holding [(⟨"/", ["c"]⟩, .directory)] := by
  have hError : (RecordFile.save "a" true { directory := ⟨"/", ["c"]⟩ } fullHost).1 =
      .error (.persistence "Failed to save /c/settings.json: No space left on device"
        (some (.file (.device "No space left on device")))) := rfl
  obtain ⟨hReported, _⟩ := failed_save_changes_no_file _ _ "a" true _ hError
  refine ⟨hError, hReported.mpr ⟨?_, ?_⟩, ?_⟩
  · rintro ⟨_, hLong⟩
    revert hLong
    decide +kernel
  · rintro ⟨hUnnameable, _⟩
    revert hUnnameable
    decide +kernel
  · decide +kernel

def overlongDirectory : FilePath :=
  ⟨"/", [List.replicate 300 (CodePoint.ofChar 'd')]⟩

/-- A directory of a name that is too long: the keeper passes on what the system says. -/
theorem overlong_directory_not_reported :
    (RecordFile.save "a" true { directory := overlongDirectory } (Host.sample [])).1 =
        .error (.file (.nameTooLong (overlongDirectory.child fileName))) ∧
      (Failure.file (.nameTooLong (overlongDirectory.child fileName))).isPersistence = false := by
  have hUnaskable : Unaskable { directory := overlongDirectory } (Host.sample []) :=
    ⟨rfl, by decide +kernel⟩
  exact ⟨save_of_unaskable hUnaskable "a" true, rfl⟩

end Switchboard.RecordFile
