import Switchboard.Proofs.Client.Parts
import Switchboard.Proofs.Registry.Declared
import Switchboard.Proofs.Registry.Sparing
import Switchboard.Proofs.SetCommand
import Switchboard.Proofs.Transcript.Writing

/-!
# What every started client keeps to

Whatever faults its calls meet, a started client knows its switches, its write queue accounts for
the assignments made, and its transcript has nothing left to bring to the disk. The settings file
and the history file are not named as transcripts are, so saving them changes no transcript.
-/

namespace Switchboard

open FileTree

/-- Is named as transcripts are. -/
def Transcript.IsLog (p : FilePath) : Prop :=
  ∃ directory clock, p = FilePath.child directory (Transcript.fileName clock)

open Transcript (IsLog Writes)

theorem Transcript.apart_log {name : Text} (hName : name ≠ FilePath.upward)
    (h : ¬ Text.ofString "session_" <+: name) (directory : FilePath) {p : FilePath}
    (hLog : IsLog p) : Apart (directory.child name) p := by
  obtain ⟨logs, clock, rfl⟩ := hLog
  exact Ne.symm (elsewhere_child logs directory hName h clock)

theorem Transcript.IsLog.foreign {p : FilePath} (h : IsLog p) : RecordFile.Foreign p := by
  obtain ⟨directory, clock, rfl⟩ := h
  have hStart : Text.ofString "session_" <+: fileName clock := ⟨clock.stamp ++ ".log", rfl⟩
  refine ⟨directory, _, rfl, ?_, ?_⟩
  · intro hName
    rw [hName] at hStart
    revert hStart
    decide
  · intro hName
    rw [hName] at hStart
    revert hStart
    decide

namespace Registry

/-- The saves of a registry are in step with its assignments and change no transcript, and no
failure of a listener comes back to what sets a switch. -/
structure Saving (r : Registry) : Prop where
  inStep : ∃ first, InStep first r
  askable : r.Askable
  contained : r.signal.Contains

variable {r : Registry} {host : Host}

theorem Saving.set (h : r.Saving) (id : Text) (value : Json) (host : Host) :
    (r.set id value host).2.1.Saving ∧
      Extends IsLog host.tree (r.set id value host).2.2.tree := by
  obtain ⟨first, hInStep⟩ := h.inStep
  obtain ⟨hAskable, hTree⟩ := h.askable.set id value host
  have hContained : (r.set id value host).2.1.signal.Contains :=
    (signal_setWithin cascadeLimit id value r host).symm ▸ h.contained
  exact ⟨⟨⟨first, hInStep.setWithin cascadeLimit id value host⟩, hAskable, hContained⟩,
    hTree.mono fun _ hLog => hLog.foreign⟩

theorem Saving.overQueue (h : r.Saving) {act : WriteQueue → Host → WriteQueue × Host}
    (hAct : ∀ q : WriteQueue, q.Orderly →
      (act q host).1.Orderly ∧ (act q host).1.ledger = q.ledger)
    (hSpares : WriteQueue.Spares act) :
    (r.overQueue act host).1.Saving ∧ Extends IsLog host.tree (r.overQueue act host).2.tree := by
  obtain ⟨first, hInStep⟩ := h.inStep
  obtain ⟨hAskable, hTree⟩ := h.askable.overQueue hSpares host
  have hContained := (signal_overQueue act r host).symm ▸ h.contained
  exact ⟨⟨⟨first, hInStep.overQueue hAct⟩, hAskable, hContained⟩,
    hTree.mono fun _ hLog => hLog.foreign⟩

/-! ## Starting -/

variable {d : Descriptor} {s : Setting} {backend after : Backend} {later : Host}

theorem askable_of_loadSettings {ds : List Descriptor} {settings : List Setting}
    (hAskable : backend.Askable)
    (h : loadSettings ds backend host = (.ok settings, after, later)) : after.Askable := by
  induction ds generalizing backend host settings with
  | nil =>
    cases h
    exact hAskable
  | cons d rest ih =>
    rw [loadSettings] at h
    split at h
    · cases h
    · rename_i hFirst
      obtain ⟨_, rfl⟩ := loadSetting_ok hFirst
      split at h
      · cases h
      · rename_i hRest
        cases h
        exact ih (hAskable.load d.id host) hRest

theorem saving_of_start {index : DescriptorIndex} (hAskable : backend.Askable)
    (h : start index (some backend) host = (.ok r, later)) : r.Saving ∧ r.Deferred := by
  have hContained := contains_of_start h
  rw [start] at h
  split at h
  · cases h
  · rename_i settings left last hLoad
    have hAfter := askable_of_loadSettings hAskable hLoad
    cases h
    refine ⟨⟨⟨_, ⟨_, rfl, WriteQueue.orderly_new left, rfl⟩, fun _ => rfl⟩, ?_, hContained⟩, ?_⟩
    · rintro _ ⟨⟩
      exact hAfter
    · rintro _ ⟨⟩
      rfl

end Registry

namespace Client

/-- What a started client keeps to, its transcripts being in a given directory. -/
structure Ready (logDirectory : FilePath) (c : Client) (tree : FileTree) : Prop where
  known : ∀ id ∈ Descriptor.table.map Descriptor.id, (c.registry.setting? id).isSome = true
  saving : c.registry.Saving
  deferred : c.down = false → c.registry.Deferred
  logs : c.transcript.directory = logDirectory
  tidy : c.transcript.Tidy
  settled : c.transcript.Settled tree
  history : ∃ directory, c.history.path = FilePath.child directory historyName

/-- An action brings some lines to transcripts and leaves the client ready. -/
structure Gains (entries : List Entry) (logDirectory : FilePath) (host : Host) (after : Client)
    (later : Host) : Prop where
  ready : after.Ready logDirectory later.tree
  contents : ∀ p, IsLog p → later.tree.contentsAt p = host.tree.contentsAt p ++ textAt p entries

variable {logDirectory : FilePath} {c d : Client} {host later last : Host}
  {entries more : List Entry}

theorem Ready.gains (h : c.Ready logDirectory host.tree) : Gains [] logDirectory host c host :=
  ⟨h, fun _ _ => (List.append_nil _).symm⟩

theorem Gains.trans (hFirst : Gains entries logDirectory host c later)
    (hNext : Gains more logDirectory later d last) :
    Gains (entries ++ more) logDirectory host d last := by
  refine ⟨hNext.ready, fun p hLog => ?_⟩
  rw [hNext.contents p hLog, hFirst.contents p hLog, textAt_append, List.append_assoc]

theorem Ready.transcript (h : c.Ready logDirectory host.tree) {t : Transcript}
    (hWrites : Writes entries c.transcript host t later) (hTidy : t.Tidy) :
    Gains entries logDirectory host { c with transcript := t } later :=
  ⟨⟨h.known, h.saving, h.deferred, hWrites.directory.trans h.logs, hTidy, hWrites.settled,
    h.history⟩, fun p _ => hWrites.contents p⟩

theorem Ready.extends (h : c.Ready logDirectory host.tree)
    (hTree : Extends IsLog host.tree later.tree) : Gains [] logDirectory host c later := by
  refine ⟨⟨h.known, h.saving, h.deferred, h.logs, h.tidy, h.settled.extends hTree, h.history⟩,
    fun p hLog => ?_⟩
  rw [hTree.contentsAt hLog]
  exact (List.append_nil _).symm

theorem Ready.relay (h : c.Ready logDirectory host.tree) (known : Nat) :
    Gains [] logDirectory host (c.relay known host).1 (c.relay known host).2 :=
  h.transcript (Transcript.hear_writes _ h.settled) (Transcript.hear_leaves _ h.tidy host).tidy

theorem Ready.setRegistry (h : c.Ready logDirectory host.tree) (id : Text) (value : Json) :
    Gains [] logDirectory host { c with registry := (c.registry.set id value host).2.1 }
      (c.registry.set id value host).2.2 := by
  obtain ⟨hSaving, hTree⟩ := h.saving.set id value host
  obtain ⟨hReady, hContents⟩ := h.extends hTree
  refine ⟨⟨fun name hName => ?_, hSaving, fun hUp => ((h.deferred hUp).set id value host).1,
    hReady.logs, hReady.tidy, hReady.settled, hReady.history⟩, hContents⟩
  exact (Registry.isSome_setting?_setWithin _ id name value c.registry host).trans
    (h.known name hName)

theorem Ready.set (h : c.Ready logDirectory host.tree) (id : Text) (value : Json) :
    Gains [] logDirectory host (c.set id value host).2.1 (c.set id value host).2.2 := by
  have hSet := h.setRegistry id value
  exact hSet.trans (hSet.ready.relay _)

theorem Ready.execute (h : c.Ready logDirectory host.tree) (line : Text) :
    Gains [] logDirectory host (c.execute line host).2.1 (c.execute line host).2.2 := by
  rcases execute_state line c host with hNone | ⟨id, value, hSet⟩
  · rw [hNone]
    exact h.gains
  · rw [hSet]
    exact h.set id value

/-- The line, when logging is on and the file that is open then accepts it. -/
def recordAcceptance (line : Text) (c : Client) (host : Host) : List Entry :=
  match c.registry.isOn Descriptor.loggingEnabled with
  | .error _ => []
  | .ok loggingOn => c.transcript.writeAcceptance loggingOn line host

theorem Ready.record (h : c.Ready logDirectory host.tree) (line : Text) :
    Gains (c.recordAcceptance line host) logDirectory host (c.record line host).2.1
      (c.record line host).2.2 := by
  rw [Client.record, recordAcceptance]
  cases c.registry.isOn Descriptor.loggingEnabled with
  | error e => exact h.gains
  | ok loggingOn =>
    have hWrite := h.transcript (Transcript.write_writes loggingOn line h.settled)
      (Transcript.write_leaves loggingOn line h.tidy host).tidy
    dsimp only
    generalize c.transcript.write loggingOn line host = written at hWrite ⊢
    obtain ⟨result, transcript, later⟩ := written
    cases result with
    | error e => exact hWrite
    | ok _ => exact hWrite

/-- The line, when it is no command, logging is on and the file that is open then accepts it. -/
def lineAcceptance (line : Text) (c : Client) (host : Host) : List Entry :=
  if SetCommand.isCommand line then [] else c.recordAcceptance line host

theorem execute_of_not_command {line : Text} (h : SetCommand.isCommand line = false) (c : Client)
    (host : Host) : c.execute line host = (.ok none, c, host) := by
  rw [Client.execute, SetCommand.execute]
  rw [if_neg (Bool.eq_false_iff.mp h)]
  dsimp only
  rw [relay, List.drop_length]
  rfl

theorem execute_of_command {line : Text} (hContained : c.registry.signal.Contains)
    (h : SetCommand.isCommand line = true) (host : Host) :
    ∃ reply, (c.execute line host).1 = .ok (some reply) := by
  obtain ⟨reply, hRun, _⟩ :=
    SetCommand.exists_reply_iff_accepts hContained line.words.tail host
  rw [Client.execute, SetCommand.execute]
  rw [if_pos h]
  generalize SetCommand.run line.words.tail c.registry host = ran at hRun
  obtain ⟨result, registry, later⟩ := ran
  obtain rfl : result = .ok reply := hRun
  exact ⟨reply, rfl⟩

theorem Ready.handleLine (h : c.Ready logDirectory host.tree) (line : Text) :
    Gains (c.lineAcceptance line host) logDirectory host (c.handleLine line host).2.1
      (c.handleLine line host).2.2 := by
  have hAdded : Ready logDirectory { c with history := c.history.add line } host.tree :=
    ⟨h.known, h.saving, h.deferred, h.logs, h.tidy, h.settled, h.history.imp fun _ hPath =>
      (path_add line c.history).trans hPath⟩
  rw [Client.handleLine, lineAcceptance]
  cases hCommand : SetCommand.isCommand line with
  | false =>
    rw [execute_of_not_command hCommand]
    have hRecord := hAdded.record line
    dsimp only
    generalize Client.record line { c with history := c.history.add line } host = recorded
      at hRecord ⊢
    obtain ⟨result, after, later⟩ := recorded
    cases result with
    | error e => exact hRecord
    | ok _ => exact hRecord
  | true =>
    have hExecute := hAdded.execute line
    obtain ⟨reply, hReply⟩ := execute_of_command
      (c := { c with history := c.history.add line }) h.saving.contained hCommand host
    generalize Client.execute line { c with history := c.history.add line } host = executed
      at hExecute hReply ⊢
    obtain ⟨result, after, later⟩ := executed
    obtain rfl : result = .ok (some reply) := hReply
    exact hExecute

/-- Whether a line is for the transcript: it is no command, and logging is on. -/
def logs (line : Text) (c : Client) : Bool :=
  !SetCommand.isCommand line &&
    match c.registry.isOn Descriptor.loggingEnabled with
    | .error _ => false
    | .ok loggingOn => loggingOn

theorem lineAcceptance_eq (line : Text) (c : Client) (host : Host) :
    c.lineAcceptance line host =
      if c.logs line then c.transcript.writeAcceptance true line host else [] := by
  rw [lineAcceptance, logs]
  cases SetCommand.isCommand line with
  | true => rfl
  | false =>
    rw [recordAcceptance]
    cases c.registry.isOn Descriptor.loggingEnabled with
    | error e => rfl
    | ok loggingOn =>
      cases loggingOn with
      | true => rfl
      | false => rfl

/-- A line is handled without an error, but where the system cannot be given the directory. -/
theorem Ready.exists_reply (h : c.Ready logDirectory host.tree)
    (hNameable : ¬ logDirectory.Unnameable) (line : Text) :
    ∃ reply, (c.handleLine line host).1 = .ok reply := by
  rw [Client.handleLine]
  cases hCommand : SetCommand.isCommand line with
  | true =>
    obtain ⟨reply, hReply⟩ := execute_of_command
      (c := { c with history := c.history.add line }) h.saving.contained hCommand host
    generalize Client.execute line { c with history := c.history.add line } host = executed
      at hReply
    obtain ⟨result, after, later⟩ := executed
    obtain rfl : result = .ok (some reply) := hReply
    exact ⟨_, rfl⟩
  | false =>
    rw [execute_of_not_command hCommand]
    obtain ⟨loggingOn, hOn⟩ := Registry.exists_isOn (h.known Descriptor.loggingEnabled (by decide))
    have hWrite : ¬ ∃ e, (c.transcript.write loggingOn line host).1 = .error e := by
      rintro ⟨e, hError⟩
      obtain ⟨_, _, hDirectory, _⟩ := (Transcript.write_raises_iff _ _ _ _).mp ⟨e, hError⟩
      exact hNameable (h.logs ▸ hDirectory)
    dsimp only
    rw [Client.record, hOn]
    dsimp only
    generalize c.transcript.write loggingOn line host = written at hWrite
    obtain ⟨result, transcript, later⟩ := written
    cases result with
    | error e => exact absurd ⟨e, rfl⟩ hWrite
    | ok _ => exact ⟨_, rfl⟩

/-! ## Runs -/

theorem Ready.overQueue (h : c.Ready logDirectory host.tree)
    {act : WriteQueue → Host → WriteQueue × Host}
    (hAct : ∀ q : WriteQueue, q.Orderly →
      (act q host).1.Orderly ∧ (act q host).1.ledger = q.ledger)
    (hSpares : WriteQueue.Spares act)
    (hDeferred : c.down = false → (c.registry.overQueue act host).1.Deferred) :
    Gains [] logDirectory host { c with registry := (c.registry.overQueue act host).1 }
      (c.registry.overQueue act host).2 := by
  obtain ⟨hSaving, hTree⟩ := h.saving.overQueue hAct hSpares
  obtain ⟨hReady, hContents⟩ := h.extends hTree
  refine ⟨⟨fun name hName => ?_, hSaving, hDeferred, hReady.logs, hReady.tidy, hReady.settled,
    hReady.history⟩, hContents⟩
  rw [Registry.setting?, Registry.settings_overQueue]
  exact h.known name hName

theorem Ready.saveHistory (h : c.Ready logDirectory host.tree) (kept : Bool) :
    Gains [] logDirectory host c (c.history.save kept host).2 := by
  obtain ⟨directory, hPath⟩ := h.history
  have hTree := (c.history.save_spec kept host).tree
  rw [hPath] at hTree
  exact h.extends (hTree.mono fun p hLog =>
    Transcript.apart_log (by decide) (by decide) directory hLog)

theorem Ready.shutdown (h : c.Ready logDirectory host.tree) :
    Gains [] logDirectory host (c.shutdown host).2.1 (c.shutdown host).2.2 := by
  have hDown : Ready logDirectory { c with down := true } host.tree :=
    ⟨h.known, h.saving, fun hUp => Bool.noConfusion hUp, h.logs, h.tidy, h.settled, h.history⟩
  rw [Client.shutdown]
  split
  · exact h.gains
  · dsimp only
    split
    · exact hDown.gains
    · rename_i kept _
      have hSaved := hDown.saveHistory kept
      dsimp only at hSaved
      generalize c.history.save kept host = saved at hSaved ⊢
      obtain ⟨result, later⟩ := saved
      cases result with
      | error e => exact hSaved
      | ok _ =>
        have hClosed := hSaved.trans
          (hSaved.ready.transcript (Transcript.close_writes hSaved.ready.settled)
            (Transcript.close_leaves hSaved.ready.tidy later).tidy)
        obtain ⟨hReady, hContents⟩ := hClosed.trans (hClosed.ready.overQueue
          (fun q hOrderly => ⟨(hOrderly.close _).1,
            (WriteQueue.ledger_work _ q.beginClose _).trans (WriteQueue.ledger_beginClose q)⟩)
          WriteQueue.close_spares fun hUp => Bool.noConfusion hUp)
        exact ⟨hReady, hContents⟩

def Step.acceptance : Step → Client × Host → List Entry
  | line text, s => s.1.lineAcceptance text s.2
  | _, _ => []

theorem Ready.step {s : Client × Host} (h : s.1.Ready logDirectory s.2.tree) (step : Step) :
    Gains (step.acceptance s) logDirectory s.2 (step.apply s).1 (step.apply s).2 := by
  cases step with
  | line text => exact h.handleLine text
  | set id value => exact h.set id value
  | wheel notches =>
    exact Ready.gains ⟨h.known, h.saving, h.deferred, h.logs, h.tidy, h.settled, h.history⟩
  | shutdown => exact h.shutdown
  | workerTakes =>
    exact h.overQueue (fun q hOrderly => ⟨hOrderly.take, WriteQueue.ledger_take q⟩)
      WriteQueue.take_spares
      fun hUp => (h.deferred hUp).overQueue (fun q _ => q.closed_take) s.2
  | workerFinishes =>
    exact h.overQueue (fun q hOrderly => ⟨hOrderly.finish _, WriteQueue.ledger_finish q _⟩)
      WriteQueue.finish_spares
      fun hUp => (h.deferred hUp).overQueue WriteQueue.closed_finish s.2
  | faults met => exact ⟨h, fun _ _ => (List.append_nil _).symm⟩
  | clock time => exact ⟨h, fun _ _ => (List.append_nil _).symm⟩

theorem Ready.apply {s : Client × Host} (h : s.1.Ready logDirectory s.2.tree) (step : Step) :
    (step.apply s).1.Ready logDirectory (step.apply s).2.tree :=
  (h.step step).ready

theorem Ready.run {s : Client × Host} (h : s.1.Ready logDirectory s.2.tree) (steps : List Step) :
    (Client.run steps s).1.Ready logDirectory (Client.run steps s).2.tree := by
  induction steps generalizing s with
  | nil => exact h
  | cons step rest ih => exact ih (h.apply step)

/-! ## Starting -/

theorem ready_of_start {settingsDirectory : FilePath} {backend : Option Backend}
    (hAskable : ∀ given, backend = some given → given.Askable)
    (h : Client.start settingsDirectory logDirectory backend host = (.ok c, later)) :
    c.Ready logDirectory later.tree := by
  have hGiven : (backend.getD (.file { directory := settingsDirectory })).Askable := by
    cases backend with
    | none => exact nofun
    | some given => exact hAskable given rfl
  obtain ⟨r, between, kept, log, hRegistry, _, hHistory, hRegistered, hTranscript, hUp⟩ :=
    parts_of_start h
  obtain ⟨⟨⟨first, hInStep⟩, hSaves, hContained⟩, hDeferred⟩ :=
    Registry.saving_of_start hGiven hRegistry
  have hOver := Registry.isOver_start hRegistry
  obtain ⟨_, loaded, _, hLoad, hPath, _⟩ :=
    History.load_spec kept { path := historyPath settingsDirectory } { between with log }
  have hNone : c.transcript.file = none := by rw [hTranscript]
  have hLoaded : c.history = loaded := by
    rw [hHistory] at hLoad
    exact (Prod.mk.inj (Prod.mk.inj hLoad).2).1
  refine ⟨?_, ?_, ?_, ?_, Transcript.tidy_of_none hNone, Transcript.settled_of_none hNone _, ?_⟩
  · intro id hId
    rw [hRegistered]
    exact Option.isSome_iff_exists.mpr ((r.mem_ids_iff id).mp (hOver.ids_eq ▸ hId))
  · rw [hRegistered]
    exact ⟨⟨first, hInStep.queue, hInStep.memory⟩, hSaves, hContained⟩
  · rw [hRegistered]
    exact fun _ => hDeferred
  · rw [hTranscript]
  · exact ⟨settingsDirectory, by rw [hLoaded, hPath]; rfl⟩

theorem ready_of_run {settingsDirectory : FilePath} {backend : Option Backend} {steps : List Step}
    (hAskable : ∀ given, backend = some given → given.Askable)
    (hStart : Client.start settingsDirectory logDirectory backend host = (.ok c, later))
    (hRun : Client.run steps (c, later) = (d, last)) : d.Ready logDirectory last.tree := by
  have hPlayed := (ready_of_start hAskable hStart).run (s := (c, later)) steps
  rwa [hRun] at hPlayed

end Client

end Switchboard
