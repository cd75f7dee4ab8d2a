import Switchboard.Proofs.WriteQueue.Serving
import Switchboard.SetCommand

/-!
# Settings before the settings file

A registry that starts before a settings file which nothing keeps from being opened takes every
position from the record in it; a switch without a stored position gets its default. From then on
the positions in memory are those that the file is to give once everything outstanding has been
saved: setting a switch changes both alike.
-/

namespace Switchboard

open FileTree
open RecordFile (also recordAt Reaches Tracks)

/-- The position of a switch by what is stored under its identifier. -/
def Descriptor.position (d : Descriptor) (stored : Option Json) : Json :=
  match stored.bind Json.toBool? with
  | some b => .bool b
  | none => d.default

namespace Registry

def positions (ds : List Descriptor) (wanted : Text → Option Json) : List Setting :=
  ds.map fun d => ⟨d, d.position (wanted d.id)⟩

variable {f : RecordFile} {host : Host} {path : FilePath} {ds : List Descriptor}
  {wanted : Text → Option Json} {r : Registry} {tree : FileTree}

theorem setting?_eq_none_iff (r : Registry) (id : Text) : r.setting? id = none ↔ id ∉ r.ids := by
  rw [setting?, List.find?_eq_none, ids]
  simp

theorem mem_ids_iff (r : Registry) (id : Text) : id ∈ r.ids ↔ ∃ s, r.setting? id = some s := by
  rw [← Option.isSome_iff_exists, ← not_iff_not, Bool.not_eq_true, Option.isSome_eq_false_iff,
    Option.isNone_iff_eq_none, setting?_eq_none_iff]

theorem setting?_of_nodup (hNodup : r.ids.Nodup) {s : Setting} (hs : s ∈ r.settings) :
    r.setting? s.descriptor.id = some s := by
  obtain ⟨found, hFound⟩ := (r.mem_ids_iff s.descriptor.id).mp (List.mem_map_of_mem hs)
  have hSame : found.descriptor.id = s.descriptor.id := by simpa using List.find?_some hFound
  rw [hFound, List.inj_on_of_nodup_map hNodup (List.mem_of_find?_eq_some hFound) hs hSame]

theorem ids_of_positions (hSettings : r.settings = positions ds wanted) :
    r.ids = ds.map Descriptor.id := by
  rw [ids, hSettings, positions, List.map_map]
  rfl

theorem setting?_of_mem (hSettings : r.settings = positions ds wanted)
    (hNodup : (ds.map Descriptor.id).Nodup) {d : Descriptor} (hd : d ∈ ds) :
    r.setting? d.id = some ⟨d, d.position (wanted d.id)⟩ := by
  have hMem : ⟨d, d.position (wanted d.id)⟩ ∈ r.settings := by
    rw [hSettings]
    exact List.mem_map_of_mem hd
  exact setting?_of_nodup (ids_of_positions hSettings ▸ hNodup) hMem

/-! ## Starting -/

theorem loadSetting_of_load {d : Descriptor} {after : RecordFile} {stored : Option Json}
    {result : Except Failure (Option Bool)} {log : List LogLine}
    (hLoad : f.load d.id host = (result, after, { host with log }))
    (hResult : result = .ok (stored.bind Json.toBool?) ∨ stored.bind Json.toBool? = none ∧
      ∃ e, result = .error e ∧ (e.isPersistence = true ∨ e.isFromSystem = true)) : ∃ log,
    loadSetting d (.file f) host =
      (.ok ⟨d, d.position stored⟩, .file after, { host with log }) := by
  unfold loadSetting Backend.load
  dsimp only
  rw [hLoad, Descriptor.position]
  rcases hResult with rfl | ⟨hNothing, e, rfl, hFamily⟩
  · cases stored.bind Json.toBool? with
    | none => exact ⟨log, rfl⟩
    | some b => exact ⟨log, rfl⟩
  · have hDefault : defaultsAfter e = true := by
      rcases hFamily with hFamily | hFamily
      · simp [defaultsAfter, hFamily]
      · simp [defaultsAfter, hFamily]
    dsimp only
    rw [if_pos hDefault, hNothing]
    exact ⟨_, rfl⟩

theorem loadSetting_spec (d : Descriptor) (host : Host)
    (h : Tracks (fun name => (recordAt host.tree f.path).get? name) f host.tree)
    (hFault : host.faults.openFile = none) : ∃ log,
    loadSetting d (.file f) host =
      (.ok ⟨d, d.position ((recordAt host.tree f.path).get? d.id)⟩, .file (f.settled host),
        { host with log }) := by
  obtain ⟨result, log, hLoad, hResult⟩ := h.load_result host hFault d.id
  refine loadSetting_of_load hLoad (hResult.imp_right fun hNone => ⟨?_, hNone.2⟩)
  rw [hNone.1]
  rfl

theorem loadSettings_spec (ds : List Descriptor) (host : Host)
    (h : Tracks (fun name => (recordAt host.tree f.path).get? name) f host.tree)
    (hFault : host.faults.openFile = none) : ∃ after log,
    loadSettings ds (.file f) host =
      (.ok (positions ds fun name => (recordAt host.tree f.path).get? name), .file after,
        { host with log }) ∧
    Tracks (fun name => (recordAt host.tree f.path).get? name) after host.tree ∧
    after.path = f.path ∧ after.pending = f.pending := by
  induction ds generalizing f host with
  | nil => exact ⟨f, host.log, rfl, h, rfl, rfl⟩
  | cons d rest ih =>
    obtain ⟨log, hFirst⟩ := loadSetting_spec d host h hFault
    obtain ⟨after, later, hRest, hTracks, hPath, hPending⟩ :=
      ih { host with log } (f := f.settled host) (by
        rw [RecordFile.path_settled]
        exact h.settled) hFault
    rw [RecordFile.path_settled] at hRest hTracks hPath
    rw [RecordFile.pending_settled] at hPending
    refine ⟨after, later, ?_, hTracks, hPath, hPending⟩
    rw [loadSettings, hFirst]
    dsimp only
    rw [hRest]
    rfl

def outcomes (r : Registry) : List (Option Failure) :=
  (r.queue.map WriteQueue.outcomes).getD []

/-- The saves submitted so far that have not been attempted. -/
def outstanding (r : Registry) : List SaveRequest :=
  (r.queue.map WriteQueue.outstanding).getD []

/-- The settings file at the path is to give the positions that the registry holds. -/
def Serves (path : FilePath) (ds : List Descriptor) (r : Registry) (tree : FileTree) : Prop :=
  ∃ q wanted, r.queue = some q ∧ q.Orderly ∧ q.Serves path wanted tree ∧
    r.settings = positions ds wanted

theorem start_spec (index : DescriptorIndex) (directory : FilePath) (host : Host)
    (hReaches : Reaches host.tree (RecordFile.path { directory }))
    (hFault : host.faults.openFile = none) : ∃ r log,
    start index (some (.file { directory })) host = (.ok r, { host with log }) ∧
    r.settings = positions index.descriptors
      (fun name => (recordAt host.tree (RecordFile.path { directory })).get? name) ∧
    Serves (RecordFile.path { directory }) index.descriptors r host.tree ∧
    r.listeners = [] := by
  have hTracks : Tracks (fun name =>
      (recordAt host.tree (RecordFile.path { directory })).get? name) { directory } host.tree :=
    ⟨⟨hReaches, RecordFile.storable_nil, RecordFile.storable_nil, fun _ => rfl, nofun⟩, nofun⟩
  obtain ⟨after, log, hLoad, hAfter, hPath, hPending⟩ :=
    loadSettings_spec index.descriptors host hTracks hFault
  refine ⟨{ settings := positions index.descriptors _, queue := some { backend := .file after } },
    log, ?_, rfl, ⟨_, _, rfl, ?_, ?_, rfl⟩, rfl⟩
  · rw [start, hLoad]
  · constructor
    · intro hClosed
      cases hClosed
    · intro _
      exact ⟨rfl, List.not_mem_nil⟩
  · exact ⟨after, _, ⟨rfl, hAfter, nofun, rfl, fun _ => hPending⟩, hPath, rfl⟩

theorem contains_of_start {index : DescriptorIndex} {backend : Option Backend} {later : Host}
    (h : start index backend host = (.ok r, later)) : r.signal.Contains := by
  cases backend with
  | none =>
    cases h
    exact fun _ => rfl
  | some backend =>
    rw [start] at h
    split at h
    · cases h
    · cases h
      exact fun _ => rfl

/-! ## Setting -/

theorem noteChange_eq (d : Descriptor) (value : Bool) (host : Host) : ∃ log,
    noteChange d value host = { host with log } := by
  unfold noteChange
  dsimp only
  split
  · exact ⟨_, rfl⟩
  · exact ⟨_, rfl⟩

theorem announce_of_contains {signal : Signal} (h : signal.Contains) (nested : Setter) (id : Text)
    (value : Bool) (listeners : List Listener) (r : Registry) (host : Host) :
    (announce signal nested id value listeners r host).1 = .ok () := by
  induction listeners generalizing r host with
  | nil => rfl
  | cons listener rest ih =>
    rw [announce]
    split
    · exact ih _ _
    · rename_i e _ _ _
      rw [if_neg (by simp [h e])]
      exact ih _ _

theorem announce_recorder {tag : Text} (nested : Setter) (id : Text) (value : Bool)
    (h : r.listeners = [.recorder tag]) (host : Host) :
    announce r.signal nested id value r.listeners r host =
      (.ok (), { r with heard := r.heard ++ [⟨tag, id, value⟩] }, host) :=
  congrArg (announce r.signal nested id value · r host) h

theorem submit_notices (id : Text) (value : Bool) (r : Registry) (host : Host) :
    (r.submit id value host).1.listeners = r.listeners ∧
      (r.submit id value host).1.heard = r.heard := by
  rw [submit]
  split
  · exact ⟨rfl, rfl⟩
  · exact ⟨rfl, rfl⟩

/-- Setting a switch assigns and submits the position, and records what differs. For what is no
switch or no position it does nothing. -/
theorem set_cases {tag : Text} (hListeners : r.listeners = [.recorder tag]) (id : Text)
    (value : Json) (host : Host) :
    ((r.setting? id = none ∨ value.isBool = false) ∧ (r.set id value host).2 = (r, host)) ∨
      ∃ b s, value = .bool b ∧ r.setting? id = some s ∧
        ((s.value.equalsBool b = true ∧
          (r.set id value host).2 = (r.assign id b).submit id b host) ∨
        s.value.equalsBool b = false ∧ ∃ log, (r.set id value host).2 =
          ({ ((r.assign id b).submit id b host).1 with heard := r.heard ++ [⟨tag, id, b⟩] },
            { ((r.assign id b).submit id b host).2 with log })) := by
  change (_ ∧ (setWith (setWithin 324) id value r host).2 = (r, host)) ∨ ∃ b s,
    value = .bool b ∧ r.setting? id = some s ∧
      ((s.value.equalsBool b = true ∧ (setWith (setWithin 324) id value r host).2 = _) ∨
        s.value.equalsBool b = false ∧ ∃ log, (setWith (setWithin 324) id value r host).2 = _)
  unfold setWith
  cases hSetting : r.setting? id with
  | none => exact .inl ⟨.inl rfl, rfl⟩
  | some s =>
    cases value with
    | bool b =>
      refine .inr ⟨b, s, rfl, rfl, ?_⟩
      dsimp only
      split
      · rename_i hEqual
        exact .inl ⟨hEqual, rfl⟩
      · rename_i hDiffers
        obtain ⟨hSame, hHeard⟩ := submit_notices id b (r.assign id b) host
        obtain ⟨log, hNote⟩ :=
          noteChange_eq s.descriptor b ((r.assign id b).submit id b host).2
        rw [hNote, announce_recorder _ id b (hSame.trans hListeners), hHeard]
        exact .inr ⟨Bool.eq_false_iff.mpr hDiffers, log, rfl⟩
    | _ => exact .inl ⟨.inr rfl, rfl⟩

theorem set_state {tag : Text} (hListeners : r.listeners = [.recorder tag]) (id : Text)
    (value : Json) (host : Host) :
    (r.set id value host).2 = (r, host) ∨
      ∃ b heard log, value = .bool b ∧ (r.setting? id).isSome = true ∧
        (r.set id value host).2 =
          ({ ((r.assign id b).submit id b host).1 with heard },
            { ((r.assign id b).submit id b host).2 with log }) := by
  rcases set_cases hListeners id value host with
    ⟨_, hNone⟩ | ⟨b, s, rfl, hSetting, ⟨_, hSet⟩ | ⟨_, log, hSet⟩⟩
  · exact .inl hNone
  · exact .inr ⟨b, _, _, rfl, by rw [hSetting]; rfl, hSet⟩
  · exact .inr ⟨b, _, log, rfl, by rw [hSetting]; rfl, hSet⟩

theorem assign_positions (h : r.settings = positions ds wanted) (id : Text) (b : Bool) :
    (r.assign id b).settings = positions ds (also id (.bool b) wanted) := by
  rw [assign]
  rw [h, positions, positions, List.map_map]
  refine List.map_congr_left fun d _ => ?_
  rw [Function.comp_apply, also]
  split
  · rfl
  · rfl

theorem mem_ids_of_setting? {id : Text} (h : (r.setting? id).isSome = true)
    (hSettings : r.settings = positions ds wanted) : id ∈ ds.map Descriptor.id := by
  rw [← ids_of_positions hSettings]
  exact (r.mem_ids_iff id).mpr (Option.isSome_iff_exists.mp h)

variable {tag : Text}

theorem Serves.set (h : Serves path ds r host.tree) (hIds : ∀ d ∈ ds, d.id.Encodable)
    (hListeners : r.listeners = [.recorder tag]) (id : Text) (value : Json) :
    Serves path ds (r.set id value host).2.1 (r.set id value host).2.2.tree ∧
      (r.set id value host).2.1.listeners = [.recorder tag] ∧
      Extends (Apart path) host.tree (r.set id value host).2.2.tree := by
  rcases set_state hListeners id value host with hNone | ⟨b, heard, log, rfl, hSetting, hSet⟩
  · rw [hNone]
    exact ⟨h, hListeners, .refl _ _⟩
  · obtain ⟨q, wanted, hQueue, hOrderly, hServes, hSettings⟩ := h
    have hRequest : SaveRequest.IsSwitch ⟨id, .bool b⟩ := by
      obtain ⟨d, hd, rfl⟩ := List.mem_map.mp (mem_ids_of_setting? hSetting hSettings)
      exact ⟨hIds d hd, b, rfl⟩
    obtain ⟨hServed, hTree⟩ := hServes.submit hOrderly hRequest
    have hSubmit : (r.assign id b).submit id b host =
        ({ r.assign id b with queue := some (q.submit ⟨id, .bool b⟩ host).1 },
          (q.submit ⟨id, .bool b⟩ host).2) := by
      rw [submit, show (r.assign id b).queue = some q from hQueue]
    rw [hSet, hSubmit]
    refine ⟨⟨_, _, rfl, hOrderly.submit _ host, hServed, ?_⟩, hListeners, hTree⟩
    exact assign_positions hSettings id b

theorem Serves.extends {kept : FilePath → Prop} {t u : FileTree} (h : Serves path ds r t)
    (hTree : Extends kept t u) (hKept : kept path) : Serves path ds r u := by
  obtain ⟨q, wanted, hQueue, hOrderly, hServes, hSettings⟩ := h
  exact ⟨q, wanted, hQueue, hOrderly, hServes.extends hTree hKept, hSettings⟩

theorem Serves.overQueue (h : Serves path ds r host.tree)
    {act : WriteQueue → Host → WriteQueue × Host}
    (hAct : ∀ q wanted, q.Orderly → q.Serves path wanted host.tree →
      (act q host).1.Orderly ∧ (act q host).1.Serves path wanted (act q host).2.tree ∧
        Extends (Apart path) host.tree (act q host).2.tree) :
    Serves path ds (r.overQueue act host).1 (r.overQueue act host).2.tree ∧
      (r.overQueue act host).1.settings = r.settings ∧
      (r.overQueue act host).1.listeners = r.listeners ∧
      Extends (Apart path) host.tree (r.overQueue act host).2.tree := by
  obtain ⟨q, wanted, hQueue, hOrderly, hServes, hSettings⟩ := h
  obtain ⟨hAfter, hServed, hTree⟩ := hAct q wanted hOrderly hServes
  rw [Registry.overQueue, hQueue]
  exact ⟨⟨_, wanted, rfl, hAfter, hServed, hSettings⟩, rfl, rfl, hTree⟩

end Registry

namespace SetCommand

theorem toggle_state (id token : Text) (r : Registry) (host : Host) :
    (toggle id token r host).2 = (r, host) ∨
      ∃ value, (toggle id token r host).2 = (r.set id value host).2 := by
  rw [toggle]
  split
  · exact .inl rfl
  · rename_i on _
    split
    · exact .inl rfl
    · refine .inr ⟨.bool on, ?_⟩
      split
      · rename_i hSet
        rw [hSet]
      · rename_i hSet
        rw [hSet]
      · rename_i hSet
        rw [hSet]

theorem run_state (args : List Text) (r : Registry) (host : Host) :
    (run args r host).2 = (r, host) ∨
      ∃ id value, (run args r host).2 = (r.set id value host).2 := by
  unfold run
  split
  · exact .inl rfl
  · exact .inl rfl
  · rename_i id token
    exact (toggle_state id token r host).imp_right fun hSet => ⟨id, hSet⟩
  · exact .inl rfl

theorem execute_state (line : Text) (r : Registry) (host : Host) :
    (execute line r host).2 = (r, host) ∨
      ∃ id value, (execute line r host).2 = (r.set id value host).2 := by
  rw [execute]
  split
  · have hRun := run_state line.words.tail r host
    split
    · rename_i h
      rwa [h] at hRun
    · rename_i h
      rwa [h] at hRun
  · exact .inl rfl

end SetCommand

end Switchboard
