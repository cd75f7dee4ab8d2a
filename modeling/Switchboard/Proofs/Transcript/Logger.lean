import Switchboard.Client
import Switchboard.Proofs.Registry.Saving
import Switchboard.Proofs.Transcript.Writing

/-!
# Runs of a transcript

A transcript goes by the logging switch of a registry. In a run of the two, lines are written,
switches are set, the file is closed, also behind the transcript's back, calls fail and files break,
and the clock is set forwards or backwards, so that a file of an earlier time may be opened again.
At every moment each file holds what it held at first and the lines that it has accepted since.
-/

namespace Switchboard

/-- A transcript, and the registry whose logging switch it goes by. -/
structure Logger where
  registry : Registry
  transcript : Transcript

namespace Logger

open Transcript (Writes)

def write (line : Text) (l : Logger) (host : Host) : Except Failure Bool × Logger × Host :=
  match l.registry.isOn Descriptor.loggingEnabled with
  | .error e => (.error e, l, host)
  | .ok loggingOn =>
    let (result, transcript, host) := l.transcript.write loggingOn line host
    (result, { l with transcript }, host)

/-- Sets a switch. The transcript hears of the changes when it is connected to the registry. -/
def set (id : Text) (value : Json) (l : Logger) (host : Host) : Logger × Host :=
  let known := l.registry.heard.length
  let (_, registry, host) := l.registry.set id value host
  let news := (registry.heard.drop known).filter fun change => change.tag = Client.feedTag
  let (transcript, host) := l.transcript.hear news host
  (⟨registry, transcript⟩, host)

inductive Act
  | write (line : Text)
  | set (id : Text) (value : Json)
  /-- The transcript is told of a change, whether it has been made or not. -/
  | tell (id : Text) (value : Json)
  | close
  | closeBehindBack
  | breakFile (b : Breakage)
  /-- From now on calls meet these faults. -/
  | faults (met : Faults)
  | clock (time : Timestamp)

def Act.apply : Act → Logger × Host → Logger × Host
  | write line, s => (s.1.write line s.2).2
  | set id value, s => s.1.set id value s.2
  | tell id value, s =>
    let (transcript, host) := s.1.transcript.settingChanged id value s.2
    ({ s.1 with transcript }, host)
  | close, s =>
    let (transcript, host) := s.1.transcript.close s.2
    ({ s.1 with transcript }, host)
  | closeBehindBack, s =>
    let (_, transcript, host) := s.1.transcript.closeBehindBack s.2
    ({ s.1 with transcript }, host)
  | breakFile b, s => ({ s.1 with transcript := s.1.transcript.breakFile b }, s.2)
  | faults met, s => (s.1, { s.2 with faults := met })
  | clock time, s => (s.1, { s.2 with clock := time })

def run (acts : List Act) (s : Logger × Host) : Logger × Host :=
  acts.foldl (fun s act => act.apply s) s

/-- The line that an act writes, when the file that is open then accepts it. -/
def Act.acceptance : Act → Logger × Host → List Entry
  | write line, s =>
    match s.1.registry.isOn Descriptor.loggingEnabled with
    | .error _ => []
    | .ok loggingOn => s.1.transcript.writeAcceptance loggingOn line s.2
  | _, _ => []

/-- The lines that files accept in the course of a run, in the order of the calls. -/
def accepted : List Act → Logger × Host → List Entry
  | [], _ => []
  | act :: rest, s => act.acceptance s ++ accepted rest (act.apply s)

structure Sound (l : Logger) (tree : FileTree) : Prop where
  settled : l.transcript.Settled tree
  known : (l.registry.setting? Descriptor.loggingEnabled).isSome = true
  deferred : l.registry.Deferred

variable {l : Logger} {host : Host} {s : Logger × Host}

theorem set_writes (h : Sound l host.tree) (id : Text) (value : Json) :
    Writes [] l.transcript host (l.set id value host).1.transcript (l.set id value host).2 ∧
      Sound (l.set id value host).1 (l.set id value host).2.tree := by
  obtain ⟨hDeferred, hTree⟩ := h.deferred.set id value host
  have hKnown : ((l.registry.set id value host).2.1.setting? Descriptor.loggingEnabled).isSome =
      _ := Registry.isSome_setting?_setWithin _ id _ value l.registry host
  rw [set]
  generalize l.registry.set id value host = after at hDeferred hTree hKnown
  obtain ⟨result, registry, later⟩ := after
  have hSettled : l.transcript.Settled later.tree := by
    rw [show later.tree = host.tree from hTree]
    exact h.settled
  obtain ⟨hDirectory, hAfter, hContents⟩ := Transcript.hear_writes
    ((registry.heard.drop l.registry.heard.length).filter fun change =>
      change.tag = Client.feedTag) hSettled
  refine ⟨⟨hDirectory, hAfter, fun p => ?_⟩, hAfter, hKnown.trans h.known, hDeferred⟩
  rw [← show later.tree = host.tree from hTree]
  exact hContents p

theorem apply_writes (h : Sound s.1 s.2.tree) (act : Act) :
    Writes (act.acceptance s) s.1.transcript s.2 (act.apply s).1.transcript (act.apply s).2 ∧
      Sound (act.apply s).1 (act.apply s).2.tree := by
  obtain ⟨hSettled, hKnown, hDeferred⟩ := h
  cases act with
  | write line =>
    rw [Act.apply, Act.acceptance, write]
    cases s.1.registry.isOn Descriptor.loggingEnabled with
    | error e => exact ⟨.refl hSettled, hSettled, hKnown, hDeferred⟩
    | ok loggingOn =>
      have hWrite := Transcript.write_writes loggingOn line hSettled
      exact ⟨hWrite, hWrite.settled, hKnown, hDeferred⟩
  | set id value => exact set_writes ⟨hSettled, hKnown, hDeferred⟩ id value
  | tell id value =>
    have hTold := Transcript.settingChanged_writes id value hSettled
    exact ⟨hTold, hTold.settled, hKnown, hDeferred⟩
  | close =>
    have hClose := Transcript.close_writes hSettled
    exact ⟨hClose, hClose.settled, hKnown, hDeferred⟩
  | closeBehindBack =>
    have hClose := Transcript.closeBehindBack_writes hSettled
    exact ⟨hClose, hClose.settled, hKnown, hDeferred⟩
  | breakFile b =>
    have hBroken := Transcript.breakFile_writes b hSettled
    exact ⟨hBroken, hBroken.settled, hKnown, hDeferred⟩
  | faults met =>
    exact ⟨⟨rfl, hSettled, fun _ => (List.append_nil _).symm⟩, hSettled, hKnown, hDeferred⟩
  | clock time =>
    exact ⟨⟨rfl, hSettled, fun _ => (List.append_nil _).symm⟩, hSettled, hKnown, hDeferred⟩

theorem run_writes (acts : List Act) (s : Logger × Host) (h : Sound s.1 s.2.tree) :
    Writes (accepted acts s) s.1.transcript s.2 (run acts s).1.transcript (run acts s).2 ∧
      Sound (run acts s).1 (run acts s).2.tree := by
  -- over the acts; each leaves the transcript settled, so that what it has accepted is on the disk
  induction acts generalizing s with
  | nil => exact ⟨.refl h.settled, h⟩
  | cons act rest ih =>
    obtain ⟨hAct, hSound⟩ := apply_writes h act
    obtain ⟨hRest, hLast⟩ := ih (act.apply s) hSound
    exact ⟨hAct.trans hRest, hLast⟩

theorem encodable_of_mem_acceptance {act : Act} {entry : Entry} (h : entry ∈ act.acceptance s) :
    entry.2.Encodable := by
  cases act with
  | write line =>
    rw [Act.acceptance] at h
    split at h
    · cases h
    · rw [Transcript.writeAcceptance] at h
      split at h
      · exact Transcript.encodable_of_mem_acceptance h
      · cases h
  | _ => cases h

theorem encodable_of_mem_accepted {acts : List Act} {entry : Entry} (h : entry ∈ accepted acts s) :
    entry.2.Encodable := by
  induction acts generalizing s with
  | nil => cases h
  | cons act rest ih =>
    rcases List.mem_append.mp h with hAct | hRest
    · exact encodable_of_mem_acceptance hAct
    · exact ih hRest

theorem write_of_isOn {loggingOn : Bool}
    (h : l.registry.isOn Descriptor.loggingEnabled = .ok loggingOn) (line : Text) (host : Host) :
    (l.write line host).1 = (l.transcript.write loggingOn line host).1 ∧
      (l.write line host).2.1.transcript = (l.transcript.write loggingOn line host).2.1 := by
  rw [write, h]
  exact ⟨rfl, rfl⟩

/-- Whatever fails in a run, each file holds at the end what it held before and the lines that it
has accepted, in order and once each. No failure of the system leaves a write: one is raised exactly
where a file is to be opened in a directory that the system cannot be given at all. A write tells
that the line was written exactly when every step has succeeded; otherwise the file is closed, and
as soon as the system works again, the next line opens one and is written. -/
theorem files_gain_accepted_lines (l : Logger) (host : Host) (hFresh : l.transcript.file = none)
    (hKnown : (l.registry.setting? Descriptor.loggingEnabled).isSome = true)
    (hDeferred : l.registry.Deferred) (acts : List Act) (line : Text) (after : Logger)
    (later : Host) (hRun : run acts (l, host) = (after, later)) :
    (∀ p, later.tree.contentsAt p =
      host.tree.contentsAt p ++ textAt p (accepted acts (l, host))) ∧
    (∀ entry ∈ accepted acts (l, host), entry.2.Encodable) ∧
    ((∃ written, (after.write line later).1 = .ok written) ↔
      ¬ (after.registry.isOn Descriptor.loggingEnabled = .ok true ∧
        after.transcript.file = none ∧ l.transcript.directory.Unnameable ∧
        later.faults.makeDirectory = none)) ∧
    ((after.write line later).1 = .ok true ↔
      after.registry.isOn Descriptor.loggingEnabled = .ok true ∧ ∃ opened between f accepted,
        after.transcript.ensureOpen later = (.ok true, opened, between) ∧ opened.file = some f ∧
        f.accept (line ++ [Text.newline]) = .ok accepted ∧
        (accepted.flush between).1 = .ok ()) ∧
    ((after.write line later).1 ≠ .ok true → (after.write line later).2.1.transcript.file = none) ∧
    (after.transcript.file = none → after.registry.isOn Descriptor.loggingEnabled = .ok true →
      line.Encodable → after.transcript.canOpen later = true → later.faults.newFile = {} →
      (after.write line later).1 = .ok true ∧
        (after.write line later).2.1.transcript.isOpen = true) := by
  have hSound : Sound l host.tree :=
    ⟨Transcript.settled_of_none hFresh host.tree, hKnown, hDeferred⟩
  obtain ⟨hWrites, hAfter⟩ := run_writes acts (l, host) hSound
  rw [hRun] at hWrites hAfter
  obtain ⟨loggingOn, hOn⟩ := Registry.exists_isOn hAfter.known
  obtain ⟨hResult, hLeft⟩ := write_of_isOn hOn line later
  rw [hResult, hLeft, hOn]
  have hOpen := Transcript.isOpen_write_iff loggingOn line after.transcript later
  refine ⟨hWrites.contents, fun _ => encodable_of_mem_accepted, ?_, ?_, ?_, ?_⟩
  · have hDirectory : after.transcript.directory = l.transcript.directory := hWrites.directory
    rw [Except.ok.injEq, ← hDirectory, ← Transcript.write_raises_iff loggingOn line]
    cases (after.transcript.write loggingOn line later).1 with
    | ok written => exact iff_of_true ⟨written, rfl⟩ nofun
    | error e => exact iff_of_false nofun (not_not_intro ⟨e, rfl⟩)
  · rw [Transcript.write_eq_true_iff, Except.ok.injEq]
  · intro hFailed
    exact Option.not_isSome_iff_eq_none.mp (mt hOpen.mp hFailed)
  · intro hNone hTrue hLine hOpens hUnbroken
    obtain rfl := Except.ok.inj hTrue
    exact Transcript.write_reopens hNone hLine hOpens (by rw [hUnbroken]) (by rw [hUnbroken])

def connected : Logger where
  registry :=
    { settings := Descriptor.table.map fun d => ⟨d, d.default⟩
      listeners := [.recorder Client.feedTag] }
  transcript := { directory := ⟨"/", ["l"]⟩ }

def earlierClock : Timestamp := ⟨2024, 1, 2, 3, 4, 5⟩

def earlierPath : FilePath := ⟨"/", ["l", Transcript.fileName earlierClock]⟩

def troubledHost : Host where
  tree := .holding [(⟨"/", ["l"]⟩, .directory), (earlierPath, .file (Utf8.encodeLossy "old\n"))]
  clock := ⟨2024, 1, 2, 9, 0, 0⟩

def troubledActs : List Act :=
  [.set Descriptor.loggingEnabled true, .faults { openFile := some "disk full" }, .write "none",
    .faults { newFile := { flush := some "disk full", close := some "disk full" } },
    .clock earlierClock, .write "one", .faults {}, .write "two", .closeBehindBack, .write "none",
    .write [0xD800], .write "three", .set Descriptor.loggingEnabled false,
    .write "none", .set Descriptor.loggingEnabled true]

/-- Lines get lost because the file cannot be opened, has been closed from elsewhere, or has no byte
form for them; a line whose flush and closing fail is kept. The next line is written. -/
theorem files_gain_accepted_lines_in_trouble :
    connected.transcript.file = none ∧
      (connected.registry.setting? Descriptor.loggingEnabled).isSome = true ∧
      connected.registry.Deferred ∧ ∃ after later,
        run troubledActs (connected, troubledHost) = (after, later) ∧
        later.tree.contentsAt earlierPath = Utf8.encodeLossy "old\none\ntwo\nthree\n" ∧
        (after.write "four" later).1 = .ok true := by
  have hDeferred : connected.registry.Deferred := nofun
  refine ⟨rfl, by decide, hDeferred, _, _, rfl, ?_, ?_⟩
  · obtain ⟨hContents, _⟩ := files_gain_accepted_lines connected troubledHost rfl (by decide)
      hDeferred troubledActs "four" _ _ rfl
    rw [hContents]
    decide +kernel
  · obtain ⟨_, _, _, _, _, hReopens⟩ := files_gain_accepted_lines connected troubledHost rfl
      (by decide) hDeferred troubledActs "four" _ _ rfl
    exact (hReopens (by decide +kernel) rfl (by decide) (by decide +kernel) (by decide +kernel)).1

end Logger

end Switchboard
