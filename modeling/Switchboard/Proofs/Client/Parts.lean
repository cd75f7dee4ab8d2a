import Switchboard.Proofs.Client

/-!
# How a client starts

A start puts the parts of a client together, and its settings decide which of them there are. It
takes the positions from the settings file, and changes no file.
-/

namespace Switchboard.Client

open FileTree
open RecordFile (recordAt Reaches)

/-- The switches of the client in the positions that the settings file gives. -/
def stored (settingsDirectory : FilePath) (tree : FileTree) : List Setting :=
  Registry.positions Descriptor.table fun name =>
    (recordAt tree (settingsPath settingsDirectory)).get? name

variable {settingsDirectory logDirectory : FilePath} {host : Host}

/-! ## Starting -/

theorem exists_saveHistory : ∃ d ∈ Descriptor.table,
    d.id = Descriptor.saveHistory ∧ d.default = .bool false :=
  ⟨_, .tail _ (.tail _ (.head _)), rfl, rfl⟩

theorem settings_nameTooLong {tree : FileTree}
    (h : tree.occupancy (historyPath settingsDirectory) = .nameTooLong) :
    tree.occupancy (settingsPath settingsDirectory) = .nameTooLong := by
  have hShort : ¬ (historyPath settingsDirectory).NameTooLong := by
    rw [FilePath.NameTooLong, historyPath, FilePath.lastName_child]
    decide
  exact nameTooLong_child h hShort (by decide) (by decide)

/-- Where the history cannot be asked about, the settings file cannot be read, and then the history
is not kept. -/
theorem history_askable {r : Registry} {kept : Bool}
    (hReaches : Reaches host.tree (settingsPath settingsDirectory))
    (hSettings : r.settings = stored settingsDirectory host.tree)
    (hKept : r.isOn Descriptor.saveHistory = .ok kept) (hOn : kept = true) :
    host.tree.occupancy (historyPath settingsDirectory) ≠ .nameTooLong := by
  intro hLong
  have hNothing : recordAt host.tree (settingsPath settingsDirectory) = [] :=
    RecordFile.recordAt_eq_nil hReaches (by simp [settings_nameTooLong hLong])
  obtain ⟨d, hd, hId, hDefault⟩ := exists_saveHistory
  rw [stored, hNothing] at hSettings
  have hSetting := Registry.setting?_of_mem hSettings DescriptorIndex.builtin.nodup hd
  rw [hId] at hSetting
  rw [Registry.isOn, Registry.get, hSetting] at hKept
  obtain rfl : d.default.isTruthy = kept := Except.ok.inj hKept
  rw [hDefault] at hOn
  cases hOn

theorem get_of_stored {r : Registry} (hSettings : r.settings = stored settingsDirectory host.tree)
    (id : Text) (hId : id ∈ Descriptor.table.map Descriptor.id) :
    ∃ value, r.get id = .ok value := by
  obtain ⟨d, hd, rfl⟩ := List.mem_map.mp hId
  have hSetting := Registry.setting?_of_mem hSettings DescriptorIndex.builtin.nodup hd
  exact ⟨_, by rw [Registry.get, hSetting]⟩

theorem scrollback_start (enabled : Json) (host : Host) : ∃ log,
    Scrollback.start enabled host = ({ enabled }, { host with log }) :=
  ⟨_, rfl⟩

theorem start_eq (settingsDirectory logDirectory : FilePath) (backend : Option Backend)
    {r : Registry} {between : Host} {mouse : Json} {kept : Bool}
    (hRegistry : Registry.start .builtin
      (some (backend.getD (.file { directory := settingsDirectory }))) host = (.ok r, between))
    (hMouse : r.get Descriptor.mouseEnabled = .ok mouse)
    (hKept : r.isOn Descriptor.saveHistory = .ok kept) : ∃ log, ∀ result loaded later,
    History.load kept { path := historyPath settingsDirectory } { between with log } =
      (result, loaded, later) →
    Client.start settingsDirectory logDirectory backend host =
      (result.map fun _ =>
        { registry := r.connect (.recorder feedTag)
          transcript := { directory := logDirectory }
          scrollback := { enabled := mouse }
          history := loaded }, later) := by
  obtain ⟨scrolled, hScroll⟩ := scrollback_start mouse between
  refine ⟨scrolled, fun result loaded later hLoad => ?_⟩
  rw [Client.start]
  dsimp only
  rw [hRegistry]
  dsimp only
  rw [hMouse, hKept]
  dsimp only
  rw [hScroll]
  dsimp only
  rw [show settingsDirectory.child historyName = historyPath settingsDirectory from rfl, hLoad]
  cases result with
  | error e => rfl
  | ok _ => rfl

theorem parts_of_start {backend : Option Backend} {c : Client} {later : Host}
    (h : Client.start settingsDirectory logDirectory backend host = (.ok c, later)) :
    ∃ r between kept log,
      Registry.start .builtin (some (backend.getD (.file { directory := settingsDirectory }))) host =
        (.ok r, between) ∧
      r.isOn Descriptor.saveHistory = .ok kept ∧
      History.load kept { path := historyPath settingsDirectory } { between with log } =
        (.ok (), c.history, later) ∧
      c.registry = r.connect (.recorder feedTag) ∧ c.transcript = { directory := logDirectory } ∧
      c.down = false := by
  rw [Client.start] at h
  dsimp only at h
  split at h
  · cases h
  · rename_i r between hRegistry
    split at h
    · cases h
    · cases h
    · rename_i mouse kept _ hKept
      obtain ⟨scrolled, hScroll⟩ := scrollback_start mouse between
      rw [hScroll] at h
      dsimp only at h
      split at h
      · cases h
      · rename_i loaded last hLoad
        cases h
        exact ⟨r, between, kept, scrolled, hRegistry, hKept, hLoad, rfl, rfl, rfl⟩

/-- A client that starts has the positions that the settings file gives, and no file changes. Only
the history can keep it from starting, and only where its file does not hold text. -/
theorem start_spec (settingsDirectory logDirectory : FilePath) (host : Host)
    (hReaches : Reaches host.tree (settingsPath settingsDirectory))
    (hFault : host.faults.openFile = none) : ∃ result log,
    Client.start settingsDirectory logDirectory none host = (result, { host with log }) ∧
      (∀ c, result = .ok c → c.registry.settings = stored settingsDirectory host.tree ∧
        Sound settingsDirectory logDirectory
          (History.HoldsText (historyPath settingsDirectory) host.tree) c host.tree) ∧
      (History.HoldsText (historyPath settingsDirectory) host.tree → ∃ c, result = .ok c) := by
  obtain ⟨r, log, hStart, hSettings, hServes, hListeners⟩ :=
    Registry.start_spec .builtin settingsDirectory host hReaches hFault
  obtain ⟨mouse, hMouse⟩ := get_of_stored hSettings Descriptor.mouseEnabled (by decide)
  obtain ⟨saved, hSaved⟩ := get_of_stored hSettings Descriptor.saveHistory (by decide)
  have hKept : r.isOn Descriptor.saveHistory = .ok saved.isTruthy := by
    rw [Registry.isOn, hSaved]
  obtain ⟨scrolled, hStarts⟩ := start_eq settingsDirectory logDirectory none hStart hMouse hKept
  obtain ⟨result, loaded, later, hLoad, hPath, hLoads⟩ := History.load_spec saved.isTruthy
    { path := historyPath settingsDirectory } { host with log := scrolled }
  rw [hStarts _ _ _ hLoad]
  cases result with
  | error e =>
    refine ⟨_, later, rfl, ?_, ?_⟩
    · intro c hc
      cases hc
    · intro hText
      have hOk := hLoads hText (history_askable hReaches hSettings hKept)
      cases hOk
  | ok _ =>
    refine ⟨_, later, rfl, ?_, fun _ => ⟨_, rfl⟩⟩
    intro c hc
    cases hc
    refine ⟨hSettings, hServes, ?_, Transcript.tidy_of_none rfl, rfl, hPath, id⟩
    change r.listeners ++ [.recorder feedTag] = [.recorder feedTag]
    rw [hListeners]
    rfl

end Switchboard.Client
