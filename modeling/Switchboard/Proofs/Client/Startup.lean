import Switchboard.Proofs.Client.Parts
import Switchboard.Proofs.Registry.Loading

/-!
# Starting a client on any files

A client that keeps its settings in the file of its directory starts whatever that file is, and
whatever the history file is as long as it holds text. A history that is kept and whose bytes spell
no text keeps the client from starting.
-/

namespace Switchboard

open FileTree
open RecordFile (storedAt)
open Registry (loadable positions)

namespace History

def readEntries (h : History) (host : Host) : List Text :=
  match h.readFile host with
  | .error _ => []
  | .ok t => newest h.maxEntries (entriesOf t)

/-- The file can be read, and its bytes are not those of a text. -/
def Spoilt (h : History) (host : Host) (refusal : Utf8.DecodeError) : Prop :=
  host.faults.readText = none ∧ ∃ contents,
    host.tree.read h.path = .ok contents ∧ Utf8.decode contents = .error refusal

variable {h : History} {host : Host}

theorem not_spoilt_of_not_file (hNone : host.tree.exists? h.path = .ok false) :
    h.readEntries host = [] ∧ ∀ refusal, ¬ h.Spoilt host refusal := by
  have hRead : ∀ contents, host.tree.read h.path ≠ .ok contents := by
    intro contents hContents
    rw [exists?, read_eq_ok_iff.mp hContents] at hNone
    cases hNone
  constructor
  · rw [readEntries, readFile]
    cases host.faults.readText with
    | some message => rfl
    | none =>
      cases hResult : host.tree.read h.path with
      | error e => rfl
      | ok contents => exact absurd hResult (hRead contents)
  · rintro refusal ⟨_, contents, hContents, _⟩
    exact hRead contents hContents

theorem readFile_outcome (hThere : host.tree.exists? h.path = .ok true) :
    (∃ t, h.readFile host = .ok t ∧ ∀ refusal, ¬ h.Spoilt host refusal) ∨
    (∃ e, h.readFile host = .error e ∧ e.isFromSystem = true ∧
      ∀ refusal, ¬ h.Spoilt host refusal) ∨
    ∃ refusal, h.readFile host = .error (.undecodable refusal) ∧ h.Spoilt host refusal := by
  obtain ⟨node, hTaken⟩ : ∃ node, host.tree.occupancy h.path = .taken node := by
    rw [exists?] at hThere
    split at hThere
    · rename_i node hTaken
      exact ⟨node, hTaken⟩
    · cases hThere
    · cases hThere
  unfold Spoilt
  rw [readFile]
  cases host.faults.readText with
  | some message => exact .inr (.inl ⟨_, rfl, rfl, by rintro _ ⟨⟨⟩, _⟩⟩)
  | none =>
    rw [FileTree.read, hTaken]
    cases node with
    | directory => exact .inr (.inl ⟨_, rfl, rfl, by rintro _ ⟨_, _, ⟨⟩, _⟩⟩)
    | file contents =>
      dsimp only
      cases hText : Utf8.decode contents with
      | ok t =>
        refine .inl ⟨t, rfl, ?_⟩
        rintro refusal ⟨_, other, hOther, hRefused⟩
        cases hOther
        rw [hText] at hRefused
        cases hRefused
      | error refusal => exact .inr (.inr ⟨refusal, rfl, rfl, contents, rfl, hText⟩)

/-- Loading a new history gives the entries that can be read and fails only for a spoilt file. -/
theorem load_new (kept : Bool) (path : FilePath) (host : Host)
    (hAsk : kept = true → host.tree.occupancy path ≠ .nameTooLong) : ∃ result log,
    load kept { path } host =
      (result, { path, entries := if kept then readEntries { path } host else [] },
        { host with log }) ∧
    ((∃ e, result = .error e) → kept = true) ∧
    (kept = true → ∀ e, result = .error e ↔
      ∃ refusal, e = .undecodable refusal ∧ Spoilt { path } host refusal) := by
  cases kept with
  | false => exact ⟨.ok (), host.log, rfl, by rintro ⟨_, ⟨⟩⟩, by rintro ⟨⟩⟩
  | true =>
    rw [load, if_pos rfl, if_pos rfl]
    cases hThere : host.tree.exists? path with
    | error refused =>
      rw [exists?] at hThere
      split at hThere
      · cases hThere
      · rename_i hLong
        exact absurd hLong (hAsk rfl)
      · cases hThere
    | ok there =>
      cases there with
      | false =>
        obtain ⟨hNone, hClean⟩ := not_spoilt_of_not_file (h := { path }) hThere
        rw [hNone]
        refine ⟨.ok (), host.log, rfl, fun _ => rfl, fun _ e => iff_of_false (by rintro ⟨⟩) ?_⟩
        rintro ⟨refusal, _, hSpoilt⟩
        exact hClean refusal hSpoilt
      | true =>
        rcases readFile_outcome (h := { path }) hThere with
          ⟨t, hRead, hClean⟩ | ⟨e, hRead, hSystem, hClean⟩ | ⟨refusal, hRead, hSpoilt⟩
        · rw [readEntries, hRead]
          refine ⟨.ok (), _, rfl, fun _ => rfl, fun _ e => iff_of_false (by rintro ⟨⟩) ?_⟩
          rintro ⟨refusal, _, hSpoilt⟩
          exact hClean refusal hSpoilt
        · rw [readEntries, hRead]
          dsimp only
          rw [if_pos hSystem]
          refine ⟨.ok (), _, rfl, fun _ => rfl, fun _ e => iff_of_false (by rintro ⟨⟩) ?_⟩
          rintro ⟨refusal, _, hSpoilt⟩
          exact hClean refusal hSpoilt
        · rw [readEntries, hRead]
          refine ⟨.error (.undecodable refusal), host.log, rfl, fun _ => rfl, fun _ e => ?_⟩
          constructor
          · rintro ⟨⟩
            exact ⟨refusal, rfl, hSpoilt⟩
          · rintro ⟨other, rfl, hOther⟩
            obtain ⟨_, contents, hContents, hText⟩ := hSpoilt
            obtain ⟨_, others, hOthers, hOtherText⟩ := hOther
            obtain rfl : contents = others := Except.ok.inj (hContents.symm.trans hOthers)
            rw [Except.error.inj (hText.symm.trans hOtherText)]

end History

namespace Client

/-- The history is to be kept, as far as the settings file can be loaded. -/
def KeepsHistory (settingsDirectory : FilePath) (host : Host) : Prop :=
  loadable host (settingsPath settingsDirectory) Descriptor.saveHistory = some (.bool true)

theorem keepsHistory_iff (settingsDirectory : FilePath) (host : Host) :
    KeepsHistory settingsDirectory host ↔
      (loadable host (settingsPath settingsDirectory) Descriptor.saveHistory).bind Json.toBool? =
        some true := by
  simp [KeepsHistory, Option.bind_eq_some_iff, Json.toBool?_eq_some_iff]

instance (settingsDirectory : FilePath) (host : Host) :
    Decidable (KeepsHistory settingsDirectory host) :=
  decidable_of_iff _ (keepsHistory_iff settingsDirectory host).symm

variable {settingsDirectory logDirectory : FilePath} {host : Host}

/-- The path of the history is no longer than that of a settings file that has been loaded. -/
theorem history_askable_of_keeps (h : KeepsHistory settingsDirectory host) :
    host.tree.occupancy (historyPath settingsDirectory) ≠ .nameTooLong := by
  intro hLong
  rw [KeepsHistory, loadable] at h
  split at h
  · cases h
  · rw [storedAt, FileTree.read, settings_nameTooLong hLong] at h
    cases h

theorem isOn_saveHistory {r : Registry} (hSettings : r.settings =
      positions Descriptor.table (loadable host (settingsPath settingsDirectory))) :
    r.isOn Descriptor.saveHistory = .ok (decide (KeepsHistory settingsDirectory host)) := by
  obtain ⟨d, hd, hId, hDefault⟩ := exists_saveHistory
  have hSetting := Registry.setting?_of_mem hSettings DescriptorIndex.builtin.nodup hd
  rw [hId] at hSetting
  rw [Registry.isOn, Registry.get, hSetting]
  dsimp only
  rw [Descriptor.position, hDefault]
  by_cases hKeeps : KeepsHistory settingsDirectory host
  · rw [decide_eq_true hKeeps, show loadable _ _ _ = _ from hKeeps]
    rfl
  · rw [decide_eq_false hKeeps]
    unfold KeepsHistory at hKeeps
    generalize loadable host _ _ = stored at hKeeps ⊢
    rcases stored with _ | value
    · rfl
    · cases value with
      | bool b =>
        cases b with
        | true => exact absurd rfl hKeeps
        | false => rfl
      | _ => rfl

/-- Whatever the settings file and the history file are, and whichever of them cannot be read, no
file changes and the client starts, with every position that can be loaded, defaults for the others
and the entries that can be read. The one exception is a history that is kept and whose bytes are
those of no text. -/
theorem start_on_any_files (settingsDirectory logDirectory : FilePath) (host : Host) :
    ∃ result log,
      Client.start settingsDirectory logDirectory none host = (result, { host with log }) ∧
      (∀ e, result = .error e ↔ KeepsHistory settingsDirectory host ∧
        ∃ refusal, e = .undecodable refusal ∧
          History.Spoilt { path := historyPath settingsDirectory } host refusal) ∧
      ∀ c, result = .ok c →
        c.registry.settings =
          positions Descriptor.table (loadable host (settingsPath settingsDirectory)) ∧
        c.history.entries = if KeepsHistory settingsDirectory host then
          History.readEntries { path := historyPath settingsDirectory } host else [] := by
  obtain ⟨r, log, hStart, hSettings, _⟩ :=
    Registry.start_loadable .builtin settingsDirectory host
  change r.settings = positions Descriptor.table
    (loadable host (settingsPath settingsDirectory)) at hSettings
  obtain ⟨d, hd, hId⟩ : ∃ d ∈ Descriptor.table, d.id = Descriptor.mouseEnabled :=
    ⟨_, .tail _ (.head _), rfl⟩
  have hMouse := Registry.setting?_of_mem hSettings DescriptorIndex.builtin.nodup hd
  have hGet : r.get Descriptor.mouseEnabled =
      .ok (d.position (loadable host (settingsPath settingsDirectory) d.id)) := by
    rw [Registry.get, ← hId, hMouse]
  obtain ⟨scrolled, hStarts⟩ :=
    start_eq settingsDirectory logDirectory none hStart hGet (isOn_saveHistory hSettings)
  obtain ⟨result, loaded, hLoad, hKept, hFails⟩ :=
    History.load_new (decide (KeepsHistory settingsDirectory host))
      (historyPath settingsDirectory) { host with log := scrolled }
      fun hKeeps => history_askable_of_keeps (of_decide_eq_true hKeeps)
  rw [hStarts _ _ _ hLoad]
  rw [decide_eq_true_iff] at hKept hFails
  have hRefused : ∀ e, result = .error e ↔ KeepsHistory settingsDirectory host ∧
      ∃ refusal, e = .undecodable refusal ∧
        History.Spoilt { path := historyPath settingsDirectory } host refusal :=
    fun e => ⟨fun hError => ⟨hKept ⟨e, hError⟩, (hFails (hKept ⟨e, hError⟩) e).mp hError⟩,
      fun hBoth => (hFails hBoth.1 e).mpr hBoth.2⟩
  cases result with
  | error e =>
    refine ⟨_, loaded, rfl, fun other => ?_, ?_⟩
    · rw [← hRefused other]
      exact ⟨by rintro ⟨⟩; rfl, by rintro ⟨⟩; rfl⟩
    · rintro _ ⟨⟩
  | ok _ =>
    refine ⟨_, loaded, rfl, fun e => ?_, ?_⟩
    · rw [← hRefused e]
      exact iff_of_false (by rintro ⟨⟩) (by rintro ⟨⟩)
    · rintro c ⟨⟩
      refine ⟨hSettings, ?_⟩
      dsimp only
      simp only [decide_eq_true_iff]
      rfl

def spoiltHost : Host :=
  .sample [(⟨"/", ["config"]⟩, .directory),
    (⟨"/", ["config", "settings.json"]⟩,
      .file (Utf8.encodeLossy "\x7b\"save_history\": true\x7d")),
    (⟨"/", ["config", "history"]⟩, .file [0xFF])]

/-- No call fails, and yet a single byte in the history file keeps the client from starting. -/
theorem not_started_on_spoilt_history :
    spoiltHost.faults = {} ∧ KeepsHistory ⟨"/", ["config"]⟩ spoiltHost ∧
      ¬ ∃ c, (Client.start ⟨"/", ["config"]⟩ ⟨"/", ["logs"]⟩ none spoiltHost).1 = .ok c := by
  refine ⟨rfl, by decide +kernel, ?_⟩
  rintro ⟨c, hStart⟩
  have hNone :
      (Client.start ⟨"/", ["config"]⟩ ⟨"/", ["logs"]⟩ none spoiltHost).1.toOption.isNone = true := by
    decide +kernel
  rw [hStart] at hNone
  cases hNone

end Client

end Switchboard
