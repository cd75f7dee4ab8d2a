import Switchboard.Proofs.RecordFile.Run

/-!
# Rewriting the settings file

A save by a keeper that has not read the file yet rewrites a file that it knows one entry of. Every
other entry comes through as it was, in its place, and a second save of the same value by another
keeper finds nothing left to change. All that can be in the way of such a save is a directory whose
path leaves no room for the name of a temporary file.
-/

namespace Switchboard.RecordFile

open FileTree

variable {f : RecordFile} {host : Host}

theorem reading_of_file {contents : Bytes} (hFaults : host.faults = {})
    (hFile : host.tree.occupancy f.path = .taken (.file contents)) :
    f.reading host = .ok (decode contents) := by
  rw [reading_eq, hFile, hFaults]

theorem writeOut_of_file (id : Text) (value : Json) (f : RecordFile) (host : Host) {contents : Bytes}
    (hFaults : host.faults = {}) (hRoom : ¬ Host.TemporaryTooLong f.directory)
    (hFile : host.tree.occupancy f.path = .taken (.file contents)) :
    (f.writeOut id value host).1 = .ok () := by
  obtain ⟨after, hReplace⟩ : ∃ after,
      host.replaceFile f.directory (f.directory.child fileName) (encode (f.data.put id value)) =
        (.ok (), after) :=
    ⟨_, Prod.ext (host.replaceFile_of_file _ hFaults hRoom hFile) rfl⟩
  unfold writeOut path
  dsimp only
  rw [hReplace]

theorem writeOut_of_long (id : Text) (value : Json) (f : RecordFile) (host : Host)
    (hLong : Host.TemporaryTooLong f.directory) : (f.writeOut id value host).1 ≠ .ok () := by
  have hRefused := host.replaceFile_of_long f.directory f.path (encode (f.data.put id value)) hLong
  unfold writeOut
  unfold path at hRefused ⊢
  dsimp only at hRefused ⊢
  split
  · rename_i hReplaced
    exact absurd (congrArg Prod.fst hReplaced) hRefused
  · split
    · nofun
    · nofun

theorem save_of_long (id : Text) (value : Json) (f : RecordFile) (host : Host)
    (hLong : Host.TemporaryTooLong f.directory) : (f.save id value host).1 ≠ .ok () := by
  rcases save_cases id value f host with ⟨e, log, hSave, _⟩ | ⟨log, hSave, _⟩
  · rw [hSave]
    nofun
  · rw [hSave]
    refine writeOut_of_long id value _ _ ?_
    rw [directory_settled]
    exact hLong

theorem save_to_record {directory : FilePath} {contents : Bytes} {r : Record Text Json}
    (hFaults : host.faults = {}) (hRoom : ¬ Host.TemporaryTooLong directory)
    (hFile : host.tree.occupancy (RecordFile.path { directory }) = .taken (.file contents))
    (hDecode : decode contents = .record r) (id : Text) (value : Json) :
    (save id value { directory } host).1 = .ok () ∧
      (save id value { directory } host).2.2.faults = {} ∧
      (save id value { directory } host).2.2.tree.occupancy (RecordFile.path { directory }) =
        .taken (.file (encode (r.put id value))) := by
  have hAttempt : (pend id value { directory }).attempt host = some r := by
    rw [attempt_pend, attempt, reading_of_file hFaults hFile, hDecode]
    rfl
  have hLoaded : ((pend id value { directory }).settled host).loaded = true := by
    rw [loaded_settled, hAttempt]
    exact Bool.or_true _
  have hData : ((pend id value { directory }).settled host).data = r.put id value := by
    rw [settled, if_neg (by simp), hAttempt]
    rfl
  have hAskable : ((pend id value { directory }).settled host).Askable := by
    rw [Askable, path_settled]
    exact askable_of_attempt hAttempt
  have hPath := path_settled (pend id value { directory }) host
  have hDirectory := directory_settled (pend id value { directory }) host
  obtain ⟨log, hWritten, _⟩ := save_spec id value { directory } host
  rw [hWritten hLoaded]
  generalize (pend id value { directory }).settled host = g at hData hAskable hPath hDirectory ⊢
  have hOk := writeOut_of_file id value g { host with log } hFaults (hDirectory ▸ hRoom)
    (hPath ▸ hFile)
  obtain ⟨tree, later, ⟨e, hWrite, _⟩ | ⟨hWrite, hTaken, _⟩⟩ :=
    writeOut_spec id value g { host with log } hAskable
  · rw [hWrite] at hOk
    cases hOk
  · rw [hData, Record.put_put, hPath] at hTaken
    rw [hWrite]
    exact ⟨rfl, hFaults, hTaken⟩

theorem loadAll_of_record {directory : FilePath} {contents : Bytes} {r : Record Text Json}
    (hFaults : host.faults = {})
    (hFile : host.tree.occupancy (RecordFile.path { directory }) = .taken (.file contents))
    (hDecode : decode contents = .record r) : (loadAll { directory } host).1 = .ok r := by
  have hReading := reading_of_file hFaults hFile
  rw [hDecode] at hReading
  simp only [loadAll, hReading]
  rfl

/-- A save to a readable file succeeds exactly where the path of a temporary file is not too long,
and then it changes one entry. The names keep their places, a new name comes last, every other value
is read back as it was, and saving the same once more leaves every byte of the file. -/
theorem save_changes_one_entry (directory : FilePath) (host : Host) (contents : Bytes)
    (r : Record Text Json) (hFaults : host.faults = {})
    (hRead : host.tree.read (RecordFile.path { directory }) = .ok contents)
    (hDecode : decode contents = .record r) (id : Text) (hId : id.Encodable) (value : Bool) :
    ((save id value { directory } host).1 = .ok () ↔ ¬ Host.TemporaryTooLong directory) ∧
      ((save id value { directory } host).1 = .ok () →
        (∃ changed, (loadAll { directory } (save id value { directory } host).2.2).1 = .ok changed ∧
          Record.names changed =
            (if id ∈ Record.names r then Record.names r else Record.names r ++ [id]) ∧
          changed.get? id = some (.bool value) ∧
          ∀ other ≠ id, changed.get? other = r.get? other) ∧
        (save id value { directory } (save id value { directory } host).2.2).1 = .ok () ∧
        ∃ written,
          (save id value { directory } host).2.2.tree.read (RecordFile.path { directory }) =
            .ok written ∧
          (save id value { directory } (save id value { directory } host).2.2).2.2.tree.read
            (RecordFile.path { directory }) = .ok written) := by
  have hStorable := storable_put (storable_of_decode hDecode) hId value
  have hFile := read_eq_ok_iff.mp hRead
  have hOkIff : (save id value { directory } host).1 = .ok () ↔ ¬ Host.TemporaryTooLong directory :=
    ⟨fun hOk hLong => save_of_long id value { directory } host hLong hOk,
      fun hRoom => (save_to_record hFaults hRoom hFile hDecode id value).1⟩
  refine ⟨hOkIff, fun hOk => ?_⟩
  have hRoom := hOkIff.mp hOk
  obtain ⟨_, hQuiet, hTaken⟩ := save_to_record hFaults hRoom hFile hDecode id value
  obtain ⟨hOkAgain, _, hTakenAgain⟩ :=
    save_to_record hQuiet hRoom hTaken (decode_encode hStorable) id value
  rw [Record.put_put] at hTakenAgain
  refine ⟨⟨r.put id value, ?_, ?_, ?_, ?_⟩, hOkAgain, encode (r.put id value), ?_, ?_⟩
  · exact loadAll_of_record hQuiet hTaken (decode_encode hStorable)
  · rw [Record.names_put]
    by_cases hName : id ∈ Record.names r
    · rw [if_pos hName, if_pos hName]
    · rw [if_neg hName, if_neg hName]
  · rw [Record.get?_put, if_pos rfl]
  · intro other hOther
    rw [Record.get?_put, if_neg hOther]
  · exact read_eq_ok_iff.mpr hTaken
  · exact read_eq_ok_iff.mpr hTakenAgain

def Reading.isRecord (r : Record Text Json) : Reading → Bool
  | record members => decide (members = r)
  | _ => false

theorem Reading.eq_record_of_isRecord {reading : Reading} {r : Record Text Json}
    (h : reading.isRecord r = true) : reading = .record r := by
  cases reading with
  | record members => exact congrArg record (of_decide_eq_true h)
  | _ => cases h

/-- A settings file that names one entry twice and holds values that are no switch positions. -/
def unusualFile : Bytes :=
  Utf8.encodeLossy "\x7b\"b\": 1.0, \"a\": 1, \"b\": [null, \"\\ud83d\"]\x7d"

/-- The entries of an unusual file survive a save. -/
theorem save_changes_one_entry_of_unusualFile :
    (save "d" (.bool true) { directory := ⟨"/", ["c"]⟩ } (hostHolding unusualFile)).1 = .ok () ∧
      (∃ changed, (loadAll { directory := ⟨"/", ["c"]⟩ }
          (save "d" (.bool true) { directory := ⟨"/", ["c"]⟩ } (hostHolding unusualFile)).2.2).1 =
        .ok changed ∧
        Record.names changed = ["b", "a", "d"] ∧ changed.get? "d" = some (.bool true) ∧
        changed.get? "b" = some (.arr [.null, .str [0xD83D]])) := by
  have hRead : (hostHolding unusualFile).tree.read (RecordFile.path { directory := ⟨"/", ["c"]⟩ }) =
      .ok unusualFile := by decide +kernel
  have hDecode : decode unusualFile =
      .record [("b", .arr [.null, .str [0xD83D]]), ("a", .int 1)] :=
    Reading.eq_record_of_isRecord (by decide +kernel)
  obtain ⟨hOkIff, hChanges⟩ :=
    save_changes_one_entry ⟨"/", ["c"]⟩ (hostHolding unusualFile) unusualFile _ rfl hRead hDecode "d"
      (by decide) true
  have hOk := hOkIff.mpr (by decide +kernel)
  obtain ⟨⟨changed, hLoad, hNames, hNew, hOld⟩, _⟩ := hChanges hOk
  refine ⟨hOk, changed, hLoad, ?_, hNew, ?_⟩
  · rw [hNames]
    decide +kernel
  · rw [hOld "b" (by decide)]
    decide +kernel

end Switchboard.RecordFile
