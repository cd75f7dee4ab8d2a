import Switchboard.Proofs.RecordFile.Stored
import Switchboard.Proofs.Registry

/-!
# Starting a registry on any settings file

A registry starts on the settings file whatever the file is and whichever attempts to open it fail.
No file changes, and every switch has the position that is stored under its identifier or its
default.
-/

namespace Switchboard

theorem Descriptor.isBool_position (d : Descriptor) (h : d.default.isBool = true)
    (stored : Option Json) : (d.position stored).isBool = true := by
  rw [position]
  split
  · rfl
  · exact h

namespace Registry

open RecordFile (Loading storedAt)

/-- Loads the switches in turn, where each load finds that files can be opened or that they cannot,
as the words listed for it say. -/
def loadSettingsMeeting (openings : Nat → Option Text) : List Descriptor → Backend → Host →
    Except Failure (List Setting) × Backend × Host
  | [], backend, host => (.ok [], backend, host)
  | d :: rest, backend, host =>
    match loadSetting d backend
        { host with faults := { host.faults with openFile := openings 0 } } with
    | (.error e, backend, host) => (.error e, backend, host)
    | (.ok s, backend, host) =>
      match loadSettingsMeeting (fun k => openings (k + 1)) rest backend host with
      | (.error e, backend, host) => (.error e, backend, host)
      | (.ok others, backend, host) => (.ok (s :: others), backend, host)

def startMeeting (openings : Nat → Option Text) (index : DescriptorIndex) (directory : FilePath)
    (host : Host) : Except Failure Registry × Host :=
  match loadSettingsMeeting openings index.descriptors (.file { directory }) host with
  | (.error e, _, after) => (.error e, { after with faults := host.faults })
  | (.ok settings, backend, after) =>
    (.ok { settings, queue := some { backend } }, { after with faults := host.faults })

/-- What can be loaded under an identifier while the faults stay as they are. -/
def loadable (host : Host) (path : FilePath) (id : Text) : Option Json :=
  match host.faults.openFile with
  | some _ => none
  | none => storedAt host.tree path id

variable {f : RecordFile} {opened : Prop} {openings : Nat → Option Text} {host : Host}

theorem loadSetting_ok {d : Descriptor} {s : Setting} {backend after : Backend} {later : Host}
    (h : loadSetting d backend host = (.ok s, after, later)) :
    s.descriptor = d ∧ after = (backend.load d.id host).2.1 := by
  rw [loadSetting] at h
  generalize backend.load d.id host = loaded at h
  obtain ⟨result, left, last⟩ := loaded
  cases result with
  | ok value =>
    cases value with
    | null =>
      cases h
      exact ⟨rfl, rfl⟩
    | _ =>
      cases h
      exact ⟨rfl, rfl⟩
  | error e =>
    dsimp only at h
    split at h
    · cases h
      exact ⟨rfl, rfl⟩
    · cases h

theorem descriptors_of_loadSettings {ds : List Descriptor} {backend after : Backend}
    {settings : List Setting} {later : Host}
    (h : loadSettings ds backend host = (.ok settings, after, later)) :
    settings.map Setting.descriptor = ds := by
  induction ds generalizing backend host settings with
  | nil =>
    cases h
    rfl
  | cons d rest ih =>
    rw [loadSettings] at h
    split at h
    · cases h
    · rename_i hFirst
      split at h
      · cases h
      · rename_i hRest
        cases h
        rw [List.map_cons, (loadSetting_ok hFirst).1, ih hRest]

theorem loadSetting_meeting (d : Descriptor) (h : Loading opened f host.tree) : ∃ value log,
    loadSetting d (.file f) host = (.ok ⟨d, value⟩, .file (f.settled host), { host with log }) ∧
    ((opened ∨ host.faults.openFile = none) →
      value = d.position (storedAt host.tree f.path d.id)) ∧
    (¬ (opened ∨ host.faults.openFile = none) → value = d.default) := by
  obtain ⟨result, log, hLoad, stored, hResult, hOpened, hUnopened⟩ := h.load d.id
  obtain ⟨log, hSetting⟩ := loadSetting_of_load hLoad hResult
  refine ⟨_, log, hSetting, fun hOnce => ?_, fun hNever => ?_⟩
  · rw [hOpened hOnce]
  · rw [hUnopened hNever]
    rfl

theorem loadSettingsMeeting_spec (openings : Nat → Option Text) (ds : List Descriptor)
    (host : Host) (h : Loading opened f host.tree) : ∃ settings after log faults,
    loadSettingsMeeting openings ds (.file f) host =
      (.ok settings, .file after, { host with log, faults }) ∧
    settings.map Setting.descriptor = ds ∧
    ∀ k s, settings[k]? = some s →
      ((opened ∨ ∃ j ≤ k, openings j = none) →
        s.value = s.descriptor.position (storedAt host.tree f.path s.descriptor.id)) ∧
      (¬ opened → (∀ j ≤ k, openings j ≠ none) → s.value = s.descriptor.default) := by
  induction ds generalizing f opened openings host with
  | nil =>
    refine ⟨[], f, host.log, host.faults, rfl, rfl, ?_⟩
    intro k s hs
    simp at hs
  | cons d rest ih =>
    let met : Host := { host with faults := { host.faults with openFile := openings 0 } }
    have hMet : Loading opened f met.tree := h
    obtain ⟨value, log, hFirst, hStored, hDefault⟩ := loadSetting_meeting d hMet
    obtain ⟨others, after, later, faults, hRest, hDescriptors, hOthers⟩ :=
      ih (fun k => openings (k + 1)) { met with log } hMet.settled
    rw [RecordFile.path_settled] at hOthers
    refine ⟨⟨d, value⟩ :: others, after, later, faults, ?_, ?_, ?_⟩
    · rw [loadSettingsMeeting, hFirst]
      dsimp only
      rw [hRest]
    · rw [List.map_cons, hDescriptors]
    · intro k s hs
      cases k with
      | zero =>
        obtain rfl : ⟨d, value⟩ = s := by simpa using hs
        constructor
        · rintro (hOpened | ⟨j, hj, hNone⟩)
          · exact hStored (.inl hOpened)
          · obtain rfl : j = 0 := by omega
            exact hStored (.inr hNone)
        · intro hNot hNever
          refine hDefault ?_
          rintro (hOpened | hNone)
          · exact hNot hOpened
          · exact hNever 0 (Nat.le_refl 0) hNone
      | succ k =>
        obtain ⟨hLater, hUnopened⟩ := hOthers k s (by simpa using hs)
        constructor
        · rintro (hOpened | ⟨j, hj, hNone⟩)
          · exact hLater (.inl (.inl hOpened))
          · cases j with
            | zero => exact hLater (.inl (.inr hNone))
            | succ j => exact hLater (.inr ⟨j, by omega, hNone⟩)
        · intro hNot hNever
          refine hUnopened ?_ fun j hj => hNever (j + 1) (by omega)
          rintro (hOpened | hNone)
          · exact hNot hOpened
          · exact hNever 0 (Nat.zero_le _) hNone

theorem loadSettingsMeeting_same (ds : List Descriptor) (host : Host)
    (hSame : ∀ k, openings k = host.faults.openFile) (h : Loading opened f host.tree) :
    loadSettingsMeeting openings ds (.file f) host = loadSettings ds (.file f) host ∧
      (loadSettings ds (.file f) host).2.2.faults = host.faults := by
  induction ds generalizing f opened openings host with
  | nil => exact ⟨rfl, rfl⟩
  | cons d rest ih =>
    obtain ⟨value, log, hFirst, _⟩ := loadSetting_meeting d h
    have hMet : { host with faults := { host.faults with openFile := openings 0 } } = host := by
      rw [hSame 0]
    obtain ⟨hRest, hFaults⟩ := ih { host with log } (fun k => hSame (k + 1)) h.settled
    rw [loadSettingsMeeting, loadSettings, hMet, hFirst]
    dsimp only
    rw [hRest]
    generalize loadSettings rest (.file (f.settled host)) { host with log } = loaded at hFaults
    obtain ⟨result, backend, after⟩ := loaded
    cases result with
    | error e => exact ⟨rfl, hFaults⟩
    | ok others => exact ⟨rfl, hFaults⟩

theorem eq_positions {ds : List Descriptor} {wanted : Text → Option Json} {settings : List Setting}
    (hDescriptors : settings.map Setting.descriptor = ds)
    (hValues : ∀ s ∈ settings, s.value = s.descriptor.position (wanted s.descriptor.id)) :
    settings = positions ds wanted := by
  rw [← hDescriptors, positions, List.map_map]
  refine (List.map_id settings).symm.trans (List.map_congr_left fun s hs => ?_)
  obtain ⟨d, value⟩ := s
  exact congrArg (Setting.mk d) (hValues _ hs)

theorem start_loadable (index : DescriptorIndex) (directory : FilePath) (host : Host) :
    ∃ r log, start index (some (.file { directory })) host = (.ok r, { host with log }) ∧
      r.settings = positions index.descriptors (loadable host (RecordFile.path { directory })) ∧
      r.listeners = [] := by
  have hNew := RecordFile.loading_new directory host.tree
  obtain ⟨settings, after, log, faults, hLoad, hDescriptors, hValues⟩ :=
    loadSettingsMeeting_spec (fun _ => host.faults.openFile) index.descriptors host hNew
  obtain ⟨hLoads, hFaults⟩ :=
    loadSettingsMeeting_same index.descriptors host (fun _ => rfl) hNew
  rw [hLoads] at hLoad
  rw [hLoad] at hFaults
  obtain rfl : faults = host.faults := hFaults
  refine ⟨_, log, by rw [start, hLoad], ?_, rfl⟩
  apply eq_positions hDescriptors
  intro s hs
  obtain ⟨k, hk⟩ := List.mem_iff_getElem?.mp hs
  obtain ⟨hOnce, hNever⟩ := hValues k s hk
  unfold loadable
  cases hFault : host.faults.openFile with
  | none => exact hOnce (.inr ⟨k, Nat.le_refl k, hFault⟩)
  | some message =>
    refine hNever id fun j _ hNone => ?_
    rw [hFault] at hNone
    cases hNone

/-- Whatever the settings file is, and whichever attempts to read it fail, a registry starts over it
and no file changes. Once an attempt could open the file, every switch has the position stored under
its identifier, or its default where none is stored; until then it has its default. -/
theorem start_on_any_file (openings : Nat → Option Text) (index : DescriptorIndex)
    (directory : FilePath) (host : Host) : ∃ r log,
    startMeeting openings index directory host = (.ok r, { host with log }) ∧
    ((∀ k, openings k = host.faults.openFile) →
      start index (some (.file { directory })) host = (.ok r, { host with log })) ∧
    r.settings.map Setting.descriptor = index.descriptors ∧
    ((∀ d ∈ index.descriptors, d.default.isBool = true) →
      ∀ s ∈ r.settings, s.value.isBool = true) ∧
    ∀ k s, r.settings[k]? = some s →
      ((∃ j ≤ k, openings j = none) → s.value = s.descriptor.position
        (storedAt host.tree (RecordFile.path { directory }) s.descriptor.id)) ∧
      ((∀ j ≤ k, openings j ≠ none) → s.value = s.descriptor.default) := by
  obtain ⟨settings, after, log, faults, hLoad, hDescriptors, hValues⟩ :=
    loadSettingsMeeting_spec openings index.descriptors host
      (RecordFile.loading_new directory host.tree)
  refine ⟨{ settings, queue := some { backend := .file after } }, log, ?_, ?_, hDescriptors, ?_, ?_⟩
  · rw [startMeeting, hLoad]
  · intro hSame
    obtain ⟨hLoads, hFaults⟩ := loadSettingsMeeting_same index.descriptors host hSame
      (RecordFile.loading_new directory host.tree)
    rw [← hLoads, hLoad] at hFaults
    obtain rfl : faults = host.faults := hFaults
    rw [start, ← hLoads, hLoad]
  · intro hBool s hs
    obtain ⟨k, hk⟩ := List.mem_iff_getElem?.mp hs
    obtain ⟨hOnce, hNever⟩ := hValues k s hk
    have hDefault : s.descriptor.default.isBool = true := by
      apply hBool
      rw [← hDescriptors]
      exact List.mem_map_of_mem hs
    by_cases hOpened : ∃ j ≤ k, openings j = none
    · rw [hOnce (.inr hOpened)]
      exact s.descriptor.isBool_position hDefault _
    · rw [hNever id fun j hj hNone => hOpened ⟨j, hj, hNone⟩]
      exact hDefault
  · intro k s hs
    obtain ⟨hOnce, hNever⟩ := hValues k s hs
    exact ⟨fun hOpened => hOnce (.inr hOpened), hNever id⟩

end Registry

end Switchboard
