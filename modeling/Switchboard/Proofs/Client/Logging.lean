import Switchboard.Proofs.Client.Readiness

/-!
# A transcript is open only while logging is on

A client lets its transcript hear of every change that it makes to a switch, and closes it when
logging goes off. So the file of the transcript is open only while logging is on, whatever fails
meanwhile, and no step that finds logging off appends anything to a transcript.
-/

namespace Switchboard

open FileTree
open Transcript (IsLog Writes)

/-! ## Registries that hold positions only -/

namespace Backend

/-- What loads yield are positions, or there is none. -/
def LoadsPositions (backend : Backend) : Prop :=
  ∀ id host value, (backend.load id host).1 = .ok value → value = .null ∨ value.isBool = true

theorem loadsPositions_file (f : RecordFile) : LoadsPositions (.file f) := by
  intro id host value h
  rw [load] at h
  generalize f.load id host = loaded at h
  obtain ⟨result, after, later⟩ := loaded
  rcases result with e | _ | b
  · cases h
  · cases h
    exact .inl rfl
  · cases h
    exact .inr rfl

theorem loadsPositions_single (id : Text) (b : Bool) :
    LoadsPositions (.script { loads := [(id, .ok (.bool b))] }) := by
  intro asked host value h
  change ((Record.get? _ asked).getD (.ok .null) : Except Failure Json) = .ok value at h
  rw [Record.get?_cons] at h
  split at h
  · cases h
    exact .inr rfl
  · cases h
    exact .inl rfl

theorem LoadsPositions.load {backend : Backend} (h : backend.LoadsPositions) (id : Text)
    (host : Host) : (backend.load id host).2.1.LoadsPositions := by
  cases backend with
  | script s => exact h
  | file f =>
    rw [Backend.load]
    generalize f.load id host = loaded
    obtain ⟨result, after, later⟩ := loaded
    rcases result with e | _ | b
    · exact loadsPositions_file after
    · exact loadsPositions_file after
    · exact loadsPositions_file after

end Backend

namespace Registry

def HoldsPositions (r : Registry) : Prop := ∀ s ∈ r.settings, s.value.isBool = true

variable {r : Registry} {d : Descriptor} {s : Setting} {backend after : Backend}
  {host later : Host} {id other : Text}

theorem isBool_of_loadSetting (hLoads : backend.LoadsPositions) (hDefault : d.default.isBool = true)
    (h : loadSetting d backend host = (.ok s, after, later)) : s.value.isBool = true := by
  have hGiven := hLoads d.id host
  rw [loadSetting] at h
  generalize backend.load d.id host = loaded at h hGiven
  obtain ⟨result, left, last⟩ := loaded
  cases result with
  | ok value =>
    cases value with
    | null =>
      cases h
      exact hDefault
    | bool b =>
      cases h
      rfl
    | _ =>
      rcases hGiven _ rfl with hNull | hBool
      · cases hNull
      · cases hBool
  | error e =>
    dsimp only at h
    split at h
    · cases h
      exact hDefault
    · cases h

theorem isBool_of_loadSettings {ds : List Descriptor} {settings : List Setting}
    (hLoads : backend.LoadsPositions) (hDefaults : ∀ d ∈ ds, d.default.isBool = true)
    (h : loadSettings ds backend host = (.ok settings, after, later)) :
    ∀ s ∈ settings, s.value.isBool = true := by
  induction ds generalizing backend host settings with
  | nil =>
    cases h
    exact nofun
  | cons d rest ih =>
    obtain ⟨hFirst, hRest⟩ := List.forall_mem_cons.mp hDefaults
    rw [loadSettings] at h
    split at h
    · cases h
    · rename_i s left last hLoad
      obtain ⟨_, rfl⟩ := loadSetting_ok hLoad
      split at h
      · cases h
      · rename_i others _ _ hOthers
        cases h
        exact List.forall_mem_cons.mpr
          ⟨isBool_of_loadSetting hLoads hFirst hLoad, ih (hLoads.load d.id host) hRest hOthers⟩

theorem holdsPositions_of_start {index : DescriptorIndex} (hLoads : backend.LoadsPositions)
    (hDefaults : ∀ d ∈ index.descriptors, d.default.isBool = true)
    (h : start index (some backend) host = (.ok r, later)) : r.HoldsPositions := by
  rw [start] at h
  split at h
  · cases h
  · rename_i settings left last hLoad
    cases h
    exact isBool_of_loadSettings hLoads hDefaults hLoad

theorem listeners_of_start {index : DescriptorIndex}
    (h : start index (some backend) host = (.ok r, later)) : r.listeners = [] := by
  rw [start] at h
  split at h
  · cases h
  · cases h
    rfl

theorem HoldsPositions.get_eq {on : Bool} (h : r.HoldsPositions) (hOn : r.isOn id = .ok on) :
    r.get id = .ok (.bool on) := by
  rw [isOn] at hOn
  rw [get] at hOn ⊢
  cases hSetting : r.setting? id with
  | none =>
    rw [hSetting] at hOn
    cases hOn
  | some s =>
    rw [hSetting] at hOn
    obtain ⟨b, hBool⟩ := (Json.isBool_iff s.value).mp (h s (List.mem_of_find?_eq_some hSetting))
    dsimp only at hOn ⊢
    rw [hBool] at hOn ⊢
    cases hOn
    rfl

theorem isOn_of_get {on : Bool} (h : r.get id = .ok (.bool on)) : r.isOn id = .ok on := by
  rw [isOn, h]
  rfl

theorem get_of_toOption {value : Json} (h : (r.get id).toOption = some value) :
    r.get id = .ok value := by
  generalize r.get id = result at h
  cases result with
  | error e => cases h
  | ok other => rw [Option.some.inj h]

theorem HoldsPositions.assign (h : r.HoldsPositions) (id : Text) (b : Bool) :
    (r.assign id b).HoldsPositions := by
  intro s hs
  obtain ⟨old, hOld, rfl⟩ := List.mem_map.mp hs
  split
  · rfl
  · exact h old hOld

theorem isOn_congr {r t : Registry} (h : r.settings = t.settings) (id : Text) :
    r.isOn id = t.isOn id := by
  rw [isOn, get, setting?, h, isOn, get, setting?]

theorem isOn_assign_self (h : (r.setting? id).isSome = true) (b : Bool) :
    (r.assign id b).isOn id = .ok b :=
  isOn_of_get (get_assign_self h b)

theorem isOn_assign_other (h : id ≠ other) (b : Bool) (r : Registry) :
    (r.assign id b).isOn other = r.isOn other := by
  rw [isOn, get_assign_other h, isOn]

theorem settings_submit (id : Text) (b : Bool) (r : Registry) (host : Host) :
    (r.submit id b host).1.settings = r.settings := by
  obtain ⟨queue, hSubmit⟩ := r.submit_frame id b host
  rw [hSubmit]

theorem isOn_set_self {tag : Text} (hListeners : r.listeners = [.recorder tag])
    (h : (r.setting? id).isSome = true) (b : Bool) (host : Host) :
    (r.set id (.bool b) host).2.1.isOn id = .ok b := by
  rcases set_cases hListeners id (.bool b) host with
    ⟨hNone | hOther, _⟩ | ⟨_, s, ⟨⟩, _, ⟨_, hSet⟩ | ⟨_, _, hSet⟩⟩
  · rw [hNone] at h
    cases h
  · cases hOther
  · rw [hSet]
    exact (isOn_congr (settings_submit _ _ _ _) id).trans (isOn_assign_self h b)
  · rw [hSet]
    exact (isOn_congr (settings_submit _ _ _ _) id).trans (isOn_assign_self h b)

end Registry

/-! ## The transcript and its switch -/

namespace Transcript

variable {t : Transcript}

theorem Tidy.breakFile (h : t.Tidy) (b : Breakage) : (t.breakFile b).Tidy := by
  intro f hFile
  obtain ⟨g, hg, rfl⟩ := Option.map_eq_some_iff.mp hFile
  exact h g hg

theorem Tidy.closeBehindBack (h : t.Tidy) (host : Host) : (t.closeBehindBack host).2.1.Tidy := by
  rw [Transcript.closeBehindBack]
  cases hFile : t.file with
  | none => exact h
  | some f => exact tidy_of_path h hFile rfl

end Transcript

namespace Client

/-- The transcript is open only while logging is on. -/
structure Attentive (c : Client) : Prop where
  positions : c.registry.HoldsPositions
  listeners : c.registry.listeners = [.recorder feedTag]
  on : c.transcript.file.isSome = true → c.registry.isOn Descriptor.loggingEnabled = .ok true

variable {c d : Client} {host later last : Host} {logDirectory : FilePath}

theorem Attentive.transcript (h : c.Attentive) {t : Transcript}
    (hFile : t.file.isSome = true → c.registry.isOn Descriptor.loggingEnabled = .ok true) :
    Attentive { c with transcript := t } :=
  ⟨h.positions, h.listeners, hFile⟩

theorem Attentive.assign (h : c.Attentive) {id : Text} {b : Bool} {r : Registry} {t : Transcript}
    (hKnown : (c.registry.setting? id).isSome = true)
    (hSettings : r.settings = (c.registry.assign id b).settings)
    (hListeners : r.listeners = c.registry.listeners)
    (hFile : t.file.isSome = true → c.transcript.file.isSome = true)
    (hClosed : id = Descriptor.loggingEnabled → b = false → t.file = none) :
    Attentive { c with registry := r, transcript := t } := by
  refine ⟨?_, hListeners.trans h.listeners, ?_⟩
  · intro s hs
    rw [hSettings] at hs
    exact h.positions.assign id b s hs
  · intro hOpen
    rw [Registry.isOn_congr hSettings]
    by_cases hId : id = Descriptor.loggingEnabled
    · rw [← hId, Registry.isOn_assign_self hKnown]
      cases b with
      | true => rfl
      | false =>
        rw [hClosed hId rfl] at hOpen
        cases hOpen
    · rw [Registry.isOn_assign_other hId]
      exact h.on (hFile hOpen)

theorem file_settingChanged (id : Text) (b : Bool) (t : Transcript) (host : Host) :
    ((t.settingChanged id (.bool b) host).1.file.isSome = true → t.file.isSome = true) ∧
      (id = Descriptor.loggingEnabled → b = false →
        (t.settingChanged id (.bool b) host).1.file = none) := by
  rw [Transcript.settingChanged]
  split
  · rw [t.file_close]
    exact ⟨by rintro ⟨⟩, fun _ _ => rfl⟩
  · rename_i hOther
    exact ⟨fun hOpen => hOpen, fun hId hOff => absurd ⟨hId, by simp [hOff]⟩ hOther⟩

theorem Attentive.setRelay (h : c.Attentive) (id : Text) (value : Json) (host : Host) :
    ((({ c with registry := (c.registry.set id value host).2.1 } : Client).relay
      c.registry.heard.length (c.registry.set id value host).2.2).1).Attentive := by
  rcases Registry.set_cases h.listeners id value host with
    ⟨_, hNone⟩ | ⟨b, s, rfl, hSetting, ⟨hEqual, hSet⟩ | ⟨_, log, hSet⟩⟩
  · rw [hNone, relay, List.drop_length]
    exact h
  · obtain ⟨hListeners, hHeard⟩ := Registry.submit_notices id b (c.registry.assign id b) host
    rw [hSet, relay]
    rw [show ((c.registry.assign id b).submit id b host).1.heard = c.registry.heard from hHeard,
      List.drop_length]
    refine h.assign (by rw [hSetting]; rfl) (Registry.settings_submit _ _ _ _) hListeners
      (fun hOpen => hOpen) ?_
    rintro rfl rfl
    -- The switch was off before, so the file was not open.
    apply Option.not_isSome_iff_eq_none.mp
    intro hOpen
    have hOn := h.positions.get_eq (h.on hOpen)
    rw [Registry.get, hSetting] at hOn
    rw [Except.ok.inj hOn] at hEqual
    cases hEqual
  · obtain ⟨hListeners, _⟩ := Registry.submit_notices id b (c.registry.assign id b) host
    rw [hSet, relay]
    dsimp only
    rw [List.drop_left]
    obtain ⟨hFile, hClosed⟩ := file_settingChanged id b c.transcript
      { ((c.registry.assign id b).submit id b host).2 with log }
    exact h.assign (by rw [hSetting]; rfl) (Registry.settings_submit _ _ _ _) hListeners hFile
      hClosed

theorem Attentive.write (h : c.Attentive) {loggingOn : Bool} (line : Text)
    (hOn : c.registry.isOn Descriptor.loggingEnabled = .ok loggingOn) (host : Host) :
    Attentive { c with transcript := (c.transcript.write loggingOn line host).2.1 } := by
  refine h.transcript fun hOpen => ?_
  cases loggingOn with
  | true => exact hOn
  | false =>
    rw [Transcript.write, if_neg (by simp)] at hOpen
    change (c.transcript.close host).1.file.isSome = true at hOpen
    rw [c.transcript.file_close] at hOpen
    cases hOpen

theorem Attentive.overQueue (h : c.Attentive) (act : WriteQueue → Host → WriteQueue × Host)
    (host : Host) : Attentive { c with registry := (c.registry.overQueue act host).1 } := by
  have hSettings := Registry.settings_overQueue act c.registry host
  refine ⟨?_, ?_, ?_⟩
  · intro s hs
    rw [hSettings] at hs
    exact h.positions s hs
  · rw [Registry.overQueue]
    split
    · exact h.listeners
    · exact h.listeners
  · intro hOpen
    rw [Registry.isOn_congr hSettings]
    exact h.on hOpen

theorem attentive_kept : Kept (fun _ => True) fun c _ => c.Attentive where
  add _ h := ⟨h.positions, h.listeners, h.on⟩
  set id value h := h.setRelay id value _
  write line hOn h := h.write line hOn _
  wheel _ h := ⟨h.positions, h.listeners, h.on⟩
  down h := ⟨h.positions, h.listeners, h.on⟩
  save _ _ h := h
  close h := by
    refine h.transcript ?_
    rw [Transcript.file_close]
    exact nofun
  queue act h := h.overQueue act.perform _

theorem attentive_of_start {settingsDirectory : FilePath} {backend : Option Backend}
    (hLoads : ∀ given, backend = some given → given.LoadsPositions)
    (h : Client.start settingsDirectory logDirectory backend host = (.ok c, later)) :
    c.Attentive := by
  have hGiven : (backend.getD (.file { directory := settingsDirectory })).LoadsPositions := by
    cases backend with
    | none => exact Backend.loadsPositions_file _
    | some given => exact hLoads given rfl
  obtain ⟨r, between, _, _, hRegistry, _, _, hRegistered, hTranscript, _⟩ := parts_of_start h
  have hPositions : r.HoldsPositions :=
    Registry.holdsPositions_of_start hGiven (by decide) hRegistry
  refine ⟨?_, ?_, ?_⟩
  · rw [hRegistered]
    exact hPositions
  · rw [hRegistered, Registry.connect, Registry.listeners_of_start hRegistry]
    rfl
  · rw [hTranscript]
    exact nofun

/-! ## Runs -/

inductive Event
  | step (taken : Step)
  | breakFile (b : Breakage)
  | closeBehindBack

def Event.apply : Event → Client × Host → Client × Host
  | step taken, s => taken.apply s
  | breakFile b, s => ({ s.1 with transcript := s.1.transcript.breakFile b }, s.2)
  | closeBehindBack, s =>
    let (_, transcript, host) := s.1.transcript.closeBehindBack s.2
    ({ s.1 with transcript }, host)

def meet (events : List Event) (s : Client × Host) : Client × Host :=
  events.foldl (fun s event => event.apply s) s

def Event.acceptance : Event → Client × Host → List Entry
  | step taken, s => taken.acceptance s
  | _, _ => []

theorem Ready.event {s : Client × Host} (h : s.1.Ready logDirectory s.2.tree) (event : Event) :
    Gains (event.acceptance s) logDirectory s.2 (event.apply s).1 (event.apply s).2 := by
  cases event with
  | step taken => exact h.step taken
  | breakFile b =>
    exact h.transcript (Transcript.breakFile_writes b h.settled) (h.tidy.breakFile b)
  | closeBehindBack =>
    exact h.transcript (Transcript.closeBehindBack_writes h.settled) (h.tidy.closeBehindBack s.2)

theorem Attentive.event {s : Client × Host} (h : s.1.Attentive) (event : Event) :
    (event.apply s).1.Attentive := by
  cases event with
  | step taken => exact attentive_kept.step h taken fun _ _ => trivial
  | breakFile b =>
    refine h.transcript ?_
    rw [Transcript.breakFile, Transcript.overFile, Option.isSome_map]
    exact h.on
  | closeBehindBack =>
    refine h.transcript ?_
    change (s.1.transcript.closeBehindBack s.2).2.1.file.isSome = true → _
    rw [Transcript.closeBehindBack]
    cases hFile : s.1.transcript.file with
    | none =>
      rw [hFile]
      rintro ⟨⟩
    | some f => exact fun _ => h.on (by rw [hFile]; rfl)

theorem meet_spec (events : List Event) {s : Client × Host}
    (hReady : s.1.Ready logDirectory s.2.tree)
    (h : s.1.Attentive) :
    (meet events s).1.Ready logDirectory (meet events s).2.tree ∧ (meet events s).1.Attentive := by
  induction events generalizing s with
  | nil => exact ⟨hReady, h⟩
  | cons event rest ih => exact ih (hReady.event event).ready (h.event event)

theorem acceptance_of_off {s : Client × Host} (event : Event)
    (h : s.1.registry.isOn Descriptor.loggingEnabled = .ok false) : event.acceptance s = [] := by
  cases event with
  | step taken =>
    cases taken with
    | line text =>
      change s.1.lineAcceptance text s.2 = []
      rw [lineAcceptance_eq, logs, h]
      simp
    | _ => rfl
  | _ => rfl

/-- Whatever a client has been through and whatever has failed meanwhile, the file of its transcript
is open only if logging is on, and while logging is off nothing that happens next appends to any
transcript, be it that logging goes on by it. -/
theorem open_only_while_logging (settingsDirectory logDirectory : FilePath)
    (backend : Option Backend) (hAskable : ∀ given, backend = some given → given.Askable)
    (hLoads : ∀ given, backend = some given → given.LoadsPositions)
    (first afterStart host : Host) (started c : Client) (events : List Event)
    (hStart : Client.start settingsDirectory logDirectory backend first =
      (.ok started, afterStart))
    (hRun : meet events (started, afterStart) = (c, host)) :
    (c.transcript.isOpen = true →
      c.registry.get Descriptor.loggingEnabled = .ok (.bool true)) ∧
    ∀ next : Event, c.registry.get Descriptor.loggingEnabled = .ok (.bool false) →
      ∀ p, IsLog p → (next.apply (c, host)).2.tree.contentsAt p = host.tree.contentsAt p := by
  obtain ⟨hReady, hAttentive⟩ := meet_spec events (s := (started, afterStart))
    (ready_of_start hAskable hStart) (attentive_of_start hLoads hStart)
  rw [hRun] at hReady hAttentive
  constructor
  · intro hOpen
    exact hAttentive.positions.get_eq (hAttentive.on hOpen)
  · intro next hOff p hLog
    have hGains := (hReady.event (s := (c, host)) next).contents p hLog
    rw [acceptance_of_off next (Registry.isOn_of_get hOff)] at hGains
    rw [hGains]
    exact List.append_nil _

def loggingBackend : Backend :=
  .script { loads := [(Descriptor.loggingEnabled, .ok (.bool true))] }

def loggingEvents : List Event :=
  [.step (.line "one"), .breakFile { flush := some "disk full", close := some "disk full" },
    .step (.line "two"), .step (.line "three"), .closeBehindBack]

def offEvents : List Event :=
  loggingEvents ++ [.step (.line "/set logging_enabled off"), .step .shutdown]

/-- The file is open after a failed write and a closing from elsewhere. Once logging is off, the
command that switches it on again appends nothing, and the line after a shutdown does not either. -/
theorem open_only_while_logging_when_broken :
    (∀ given, some loggingBackend = some given → given.Askable) ∧
    (∀ given, some loggingBackend = some given → given.LoadsPositions) ∧
    ∃ started afterStart c host d later,
      Client.start ⟨"/", ["config"]⟩ ⟨"/", ["logs"]⟩ (some loggingBackend) (.sample []) =
        (.ok started, afterStart) ∧
      meet loggingEvents (started, afterStart) = (c, host) ∧ c.transcript.isOpen = true ∧
      c.registry.get Descriptor.loggingEnabled = .ok (.bool true) ∧
      meet offEvents (started, afterStart) = (d, later) ∧
      d.registry.get Descriptor.loggingEnabled = .ok (.bool false) ∧
      ∀ next : Event, ∀ p, IsLog p →
        (next.apply (d, later)).2.tree.contentsAt p = later.tree.contentsAt p := by
  have hAskable : ∀ given, some loggingBackend = some given → given.Askable := by
    rintro _ ⟨⟩
    trivial
  have hLoads : ∀ given, some loggingBackend = some given → given.LoadsPositions := by
    rintro _ ⟨⟩
    exact Backend.loadsPositions_single _ true
  have hPasses : Host.passes (fun s => (meet loggingEvents s).1.transcript.isOpen &&
      ((meet offEvents s).1.registry.get Descriptor.loggingEnabled).toOption = some (.bool false))
      (Client.start ⟨"/", ["config"]⟩ ⟨"/", ["logs"]⟩ (some loggingBackend) (.sample [])) =
        true := by
    decide +kernel
  obtain ⟨started, afterStart, hStart, hTest⟩ := Host.exists_of_passes _ _ hPasses
  obtain ⟨⟨c, host⟩, hBroken⟩ : ∃ s, meet loggingEvents (started, afterStart) = s := ⟨_, rfl⟩
  obtain ⟨⟨d, later⟩, hDown⟩ : ∃ s, meet offEvents (started, afterStart) = s := ⟨_, rfl⟩
  simp only [hBroken, hDown, Bool.and_eq_true, decide_eq_true_eq] at hTest
  obtain ⟨hOpen, hOff⟩ := hTest
  obtain ⟨hTrue, _⟩ :=
    open_only_while_logging _ _ _ hAskable hLoads _ _ _ _ _ loggingEvents hStart hBroken
  obtain ⟨_, hNothing⟩ :=
    open_only_while_logging _ _ _ hAskable hLoads _ _ _ _ _ offEvents hStart hDown
  have hGet := Registry.get_of_toOption hOff
  exact ⟨hAskable, hLoads, started, afterStart, c, host, d, later, hStart, hBroken, hOpen,
    hTrue hOpen, hDown, hGet, fun next => hNothing next hGet⟩

end Client

end Switchboard
