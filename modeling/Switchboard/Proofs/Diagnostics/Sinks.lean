import Switchboard.Proofs.Diagnostics
import Switchboard.Proofs.File.Contents
import Switchboard.Proofs.Json.Ascii

/-!
# What reaches the sinks

Diagnostics are set up again and again, each time under a level, with a new console and perhaps with
a file, and messages are logged in between. Whatever passes the level and the least level of a sink
is written to that sink once, as far as it can be: a line without a byte form does not reach a file.
The sinks of earlier set-ups are written to no more, but for a file that is opened again.
-/

namespace Switchboard.Diagnostics

open FileTree

/-- A set-up under a name that gives a level, and the messages that are logged after it. A set-up
with a file names the directory of the file, and may fail to open it. -/
structure Round where
  levelName : Text
  level : Int
  named : levelNamed levelName = .ok level
  file : Option FilePath
  clock : Timestamp
  faults : Faults := {}
  messages : List LogMessage

def logAll (messages : List LogMessage) (s : Diagnostics × Host) : Diagnostics × Host :=
  messages.foldl (fun s m => log m s.1 s.2) s

def consoleEntry (level : Int) (m : LogMessage) : Text :=
  if max level 30 ≤ m.level then consoleLine m else []

def fileEntry (level : Int) (m : LogMessage) : Bytes :=
  if max level 10 ≤ m.level ∧ m.logger.Encodable ∧ m.text.Encodable then
    Utf8.encodeLossy (fileLine m)
  else []

/-- What is logged first when a file has been opened. -/
def announcement (path : FilePath) : LogMessage :=
  ⟨[], infoLevel, "Diagnostics written to " ++ path.toText⟩

namespace Round

def setUp (round : Round) (s : Diagnostics × Host) : Except Failure Unit × Diagnostics × Host :=
  s.1.setUp round.levelName round.file { s.2 with clock := round.clock, faults := round.faults }

def play (round : Round) (s : Diagnostics × Host) : Diagnostics × Host :=
  logAll round.messages (round.setUp s).2

def opened (round : Round) (s : Diagnostics × Host) : Option FilePath :=
  match (round.setUp s).1 with
  | .ok () => round.file.map fun directory => filePath directory round.clock
  | .error _ => none

def shown (round : Round) : Text := round.messages.flatMap (consoleEntry round.level)

def filed (round : Round) (path : FilePath) : Bytes :=
  (announcement path :: round.messages).flatMap (fileEntry round.level)

end Round

/-- What goes to a path that leads to the file of a round, if there is one. -/
def atFile (file : Option FilePath) (p : FilePath) (text : FilePath → Bytes) : Bytes :=
  match file with
  | some path => if p.location = path.location then text path else []
  | none => []

def run (rounds : List Round) (s : Diagnostics × Host) : Diagnostics × Host :=
  rounds.foldl (fun s round => round.play s) s

def additions (path : FilePath) : List Round → Diagnostics × Host → Bytes
  | [], _ => []
  | round :: rest, s =>
    atFile (round.opened s) path round.filed ++ additions path rest (round.play s)

variable {d : Diagnostics} {host : Host} {level : Int} {earlier : List Text} {shown : Text}
  {file : Option FilePath} {path : FilePath}

theorem atFile_nil (file : Option FilePath) (p : FilePath) : atFile file p (fun _ => []) = [] := by
  cases file with
  | none => rfl
  | some path => exact ite_self _

theorem atFile_append (file : Option FilePath) (p : FilePath) (text more : FilePath → Bytes) :
    atFile file p text ++ atFile file p more = atFile file p fun path => text path ++ more path := by
  cases file with
  | none => rfl
  | some path =>
    simp only [atFile]
    split
    · rfl
    · rfl

/-! ## Messages -/

theorem encodable_levelText (level : Int) : (levelText level).Encodable := by
  have hWord : Text.Encodable "Level " := by decide
  rw [levelText]
  split_ifs
  · decide
  · decide
  · decide
  · decide
  · decide
  · decide
  · exact List.forall_mem_append.mpr ⟨hWord, Json.encodable_of_ascii (Json.ascii_ofInt level)⟩

theorem encodable_fileLine_iff (m : LogMessage) :
    (fileLine m).Encodable ↔ m.logger.Encodable ∧ m.text.Encodable := by
  have hLogger : (loggerText m).Encodable ↔ m.logger.Encodable := by
    rw [loggerText]
    split_ifs with hRoot
    · rw [hRoot]
      decide
    · exact Iff.rfl
  have hDash : Text.Encodable " - " := by decide
  rw [fileLine, Utf8.encodable_ended_iff, ← hLogger]
  simp only [Text.Encodable, List.forall_mem_append]
  have hLevel := encodable_levelText m.level
  exact ⟨fun h => ⟨h.1.1.1.1, h.2⟩, fun h => ⟨⟨⟨⟨h.1, hDash⟩, hLevel⟩, hDash⟩, h.2⟩⟩

theorem deliver_console (m : LogMessage) (hLevel : level ≤ m.level)
    (hConsoles : d.consoles = earlier ++ [shown]) :
    deliver m (.console earlier.length) d host =
      ({ d with consoles := earlier ++ [shown ++ consoleEntry level m] }, host) := by
  rw [deliver, consoleEntry, Sink.threshold]
  split_ifs with hLow hHigh hHigh
  · omega
  · rw [List.append_nil, ← hConsoles]
  · simp [hConsoles, List.modify_eq_take_drop]
  · omega

theorem deliver_file (m : LogMessage) (hLevel : level ≤ m.level)
    {contents : Bytes} (hStands : host.tree.occupancy path = .taken (.file contents)) :
    ∃ tree later, deliver m (.file path) d host = (d, { host with tree }) ∧
      tree.occupancy path = .taken (.file later) ∧
      ∀ p, tree.contentsAt p =
        host.tree.contentsAt p ++ if p.location = path.location then fileEntry level m else [] := by
  rw [deliver, Sink.threshold, fileEntry]
  by_cases hLow : m.level < 10
  · rw [if_pos hLow, if_neg (by omega)]
    exact ⟨host.tree, contents, rfl, hStands, fun p => by simp⟩
  rw [if_neg hLow]
  by_cases hLine : (fileLine m).Encodable
  · rw [if_pos ⟨by omega, (encodable_fileLine_iff m).mp hLine⟩]
    have hAppend : host.tree.append path (Utf8.encodeLossy (fileLine m)) =
        .ok (host.tree.put path (.file (contents ++ Utf8.encodeLossy (fileLine m)))) := by
      rw [append, openToWrite_of_file hStands]
    obtain ⟨hLater, hContents⟩ := append_spec hAppend
    refine ⟨_, _, ?_, hLater, hContents⟩
    rw [Utf8.encode_eq_ok _ hLine, ← Utf8.encodeLossy_of_encodable hLine]
    dsimp only
    rw [hAppend]
  · rw [if_neg fun h => hLine ((encodable_fileLine_iff m).mpr h.2)]
    refine ⟨host.tree, contents, ?_, hStands, fun p => by simp⟩
    cases hEncode : Utf8.encode (fileLine m) with
    | ok bytes => exact absurd (Utf8.encodable_of_encodeFrom hEncode) hLine
    | error e => rfl

/-- The sinks of the latest set-up: its console, behind those before, and the file that it opened,
which still stands. -/
structure Connected (level : Int) (earlier : List Text) (shown : Text) (file : Option FilePath)
    (s : Diagnostics × Host) : Prop where
  level : s.1.level = level
  sinks : s.1.sinks = .console earlier.length :: (file.map Sink.file).toList
  consoles : s.1.consoles = earlier ++ [shown]
  stands : ∀ path ∈ file, ∃ contents, s.2.tree.occupancy path = .taken (.file contents)

variable {s : Diagnostics × Host}

theorem Connected.log (h : Connected level earlier shown file s) (m : LogMessage) :
    Connected level earlier (shown ++ consoleEntry level m) file (log m s.1 s.2) ∧
      ∀ p, (log m s.1 s.2).2.tree.contentsAt p =
        s.2.tree.contentsAt p ++ atFile file p fun _ => fileEntry level m := by
  obtain ⟨d, host⟩ := s
  obtain ⟨hLevel, hSinks, hConsoles, hStands⟩ := h
  simp only at hLevel hSinks hConsoles hStands
  rw [Diagnostics.log, hLevel]
  by_cases hQuiet : m.level ≤ 0 ∨ m.level < level
  · have hConsole : consoleEntry level m = [] := if_neg (by omega)
    have hFile : fileEntry level m = [] := if_neg (by omega)
    rw [if_pos hQuiet, hConsole, hFile, List.append_nil]
    exact ⟨⟨hLevel, hSinks, hConsoles, hStands⟩, fun p => by rw [atFile_nil, List.append_nil]⟩
  have hPasses : level ≤ m.level := by omega
  rw [if_neg hQuiet, hSinks, deliverAll, deliver_console m hPasses hConsoles]
  cases file with
  | none => exact ⟨⟨hLevel, hSinks, rfl, nofun⟩, fun p => by simp [deliverAll, atFile]⟩
  | some path =>
    obtain ⟨contents, hFile⟩ := hStands path rfl
    obtain ⟨tree, later, hDeliver, hLater, hContents⟩ :=
      deliver_file (d := { d with consoles := earlier ++ [shown ++ consoleEntry level m] }) m hPasses
        hFile
    simp only [Option.map_some, Option.toList_some, deliverAll, hDeliver]
    refine ⟨⟨hLevel, hSinks, rfl, ?_⟩, hContents⟩
    rintro _ ⟨⟩
    exact ⟨later, hLater⟩

theorem Connected.logAll (h : Connected level earlier shown file s) (messages : List LogMessage) :
    Connected level earlier (shown ++ messages.flatMap (consoleEntry level)) file
        (logAll messages s) ∧
      ∀ p, (Diagnostics.logAll messages s).2.tree.contentsAt p = s.2.tree.contentsAt p ++
        atFile file p fun _ => messages.flatMap (fileEntry level) := by
  induction messages generalizing shown s with
  | nil =>
    refine ⟨by simpa [Diagnostics.logAll] using h, fun p => ?_⟩
    simp [Diagnostics.logAll, atFile_nil]
  | cons m rest ih =>
    obtain ⟨hFirst, hFile⟩ := h.log m
    obtain ⟨hRest, hLater⟩ := ih hFirst
    rw [List.flatMap_cons, ← List.append_assoc]
    refine ⟨hRest, fun p => ?_⟩
    rw [Diagnostics.logAll, List.foldl_cons]
    refine (hLater p).trans ?_
    rw [hFile, List.append_assoc, atFile_append]
    rfl

/-! ## Set-ups -/

/-- Whether or not the file can be opened, no contents are changed, and a file that has been opened
stands. -/
theorem openFile_cases (directory : FilePath) (host : Host) :
    ∃ tree, (∀ p, tree.contentsAt p = host.tree.contentsAt p) ∧
      ((∃ e, openFile directory host = (.error e, { host with tree })) ∨
        (openFile directory host = (.ok (filePath directory host.clock), { host with tree }) ∧
          ∃ contents, tree.occupancy (filePath directory host.clock) = .taken (.file contents))) := by
  obtain ⟨made, hAdds, hHost, -⟩ := host.makeDirectories_eq directory
  have hMade : ∀ p, made.contentsAt p = host.tree.contentsAt p :=
    fun p => hAdds.grows.contentsAt trivial
  rw [openFile]
  generalize host.makeDirectories directory = attempt at hHost
  obtain ⟨outcome, after⟩ := attempt
  obtain rfl : after = { host with tree := made } := hHost
  cases outcome with
  | error e => exact ⟨made, hMade, .inl ⟨e, rfl⟩⟩
  | ok =>
    dsimp only
    cases host.faults.openFile with
    | some message => exact ⟨made, hMade, .inl ⟨_, rfl⟩⟩
    | none =>
      cases hAppend : made.append (filePath directory host.clock) [] with
      | error e => exact ⟨made, hMade, .inl ⟨e, rfl⟩⟩
      | ok tree =>
        obtain ⟨hStands, hContents⟩ := append_spec hAppend
        refine ⟨tree, fun p => ?_, .inr ⟨rfl, _, hStands⟩⟩
        rw [hContents, ite_self, List.append_nil, hMade]

/-- A set-up opens a new console and, if it can, the file, where it leaves its first message. -/
theorem Round.setUp_connected (round : Round) (s : Diagnostics × Host) :
    Connected round.level s.1.consoles [] (round.opened s) (round.setUp s).2 ∧
      ∀ p, (round.setUp s).2.2.tree.contentsAt p = s.2.tree.contentsAt p ++
        atFile (round.opened s) p fun path => fileEntry round.level (announcement path) := by
  obtain ⟨d, host⟩ := s
  have hNewConsole : ∀ path, consoleEntry round.level (announcement path) = [] :=
    fun path => if_neg (by simp only [announcement, infoLevel]; omega)
  rw [opened, Round.setUp, Diagnostics.setUp, round.named]
  dsimp only
  cases round.file with
  | none => exact ⟨⟨rfl, rfl, rfl, by simp⟩, fun p => by simp [atFile]⟩
  | some directory =>
    obtain ⟨tree, hContents, ⟨e, hRefused⟩ | ⟨hOpened, contents, hStands⟩⟩ :=
      openFile_cases directory { host with clock := round.clock, faults := round.faults }
    · simp only [hRefused]
      exact ⟨⟨rfl, rfl, rfl, by simp⟩, fun p => by simpa [atFile] using hContents p⟩
    · simp only [hOpened, Option.map_some]
      have hConnected : Connected round.level d.consoles [] (some (filePath directory round.clock))
          ({ d with
              level := round.level
              sinks := [.console d.consoles.length, .file (filePath directory round.clock)]
              consoles := d.consoles ++ [[]] },
            { host with clock := round.clock, faults := round.faults, tree }) := by
        refine ⟨rfl, rfl, rfl, ?_⟩
        rintro _ ⟨⟩
        exact ⟨contents, hStands⟩
      obtain ⟨hAfter, hFile⟩ := hConnected.log (announcement (filePath directory round.clock))
      rw [hNewConsole] at hAfter
      refine ⟨hAfter, fun p => (hFile p).trans ?_⟩
      rw [hContents]
      rfl

/-! ## Rounds -/

theorem Round.play_connected (round : Round) (s : Diagnostics × Host) :
    Connected round.level s.1.consoles round.shown (round.opened s) (round.play s) ∧
      ∀ p, (round.play s).2.tree.contentsAt p = s.2.tree.contentsAt p ++
        atFile (round.opened s) p round.filed := by
  obtain ⟨hSetUp, hFile⟩ := round.setUp_connected s
  obtain ⟨hPlayed, hLater⟩ := hSetUp.logAll round.messages
  refine ⟨hPlayed, fun p => (hLater p).trans ?_⟩
  rw [hFile, List.append_assoc, atFile_append]
  rfl

/-- However often diagnostics are set up, every console shows what was logged between its set-up and
the next one, as far as it passes the level of the set-up and is a warning or worse, line by line.
Every file gains in the course of a set-up that opened it the messages that pass the level, are not
below debugging and have a byte form, after the one that announces the file. In the course of every
other set-up it gains nothing. -/
theorem sinks_gain_what_passes (rounds : List Round) (d : Diagnostics) (host : Host) :
    let (after, later) := run rounds (d, host)
    after.level = (rounds.getLast?.map Round.level).getD d.level ∧
    after.consoles = d.consoles ++ rounds.map Round.shown ∧
    ∀ p, later.tree.contentsAt p = host.tree.contentsAt p ++ additions p rounds (d, host) := by
  change (run rounds (d, host)).1.level = _ ∧ (run rounds (d, host)).1.consoles = _ ∧
    ∀ p, (run rounds (d, host)).2.tree.contentsAt p = _
  generalize hStart : (d, host) = s
  obtain ⟨rfl, rfl⟩ : d = s.1 ∧ host = s.2 := by
    rw [← hStart]
    exact ⟨rfl, rfl⟩
  clear hStart
  induction rounds generalizing s with
  | nil => exact ⟨rfl, (List.append_nil _).symm, fun p => (List.append_nil _).symm⟩
  | cons round rest ih =>
    obtain ⟨hPlayed, hFile⟩ := round.play_connected s
    obtain ⟨hLevel, hConsoles, hLater⟩ := ih (round.play s)
    rw [run, List.foldl_cons]
    refine ⟨hLevel.trans ?_, hConsoles.trans ?_, fun p => (hLater p).trans ?_⟩
    · rw [hPlayed.level]
      cases rest with
      | nil => rfl
      | cons second others => simp [List.getLast?_cons]
    · rw [hPlayed.consoles, List.map_cons, List.append_assoc, List.singleton_append]
    · rw [hFile, additions, List.append_assoc]

def surrogateRound : Round where
  levelName := "DEBUG"
  level := 10
  named := by rfl
  file := some (.ofText "/cache")
  clock := ⟨2024, 1, 2, 3, 4, 5⟩
  messages := [⟨"a", 20, [0xD800]⟩]

/-- A message that passes the level is lost to the file when it has no byte form. -/
theorem message_not_filed_without_byte_form :
    let s : Diagnostics × Host := (initial, .sample [])
    let path : FilePath := .ofText "/cache/mudsettings_20240102_030405.log"
    surrogateRound.opened s = some path ∧
      (∀ m ∈ surrogateRound.messages, max surrogateRound.level 10 ≤ m.level) ∧
      (surrogateRound.play s).2.tree.contentsAt path =
        Utf8.encodeLossy (fileLine (announcement path)) := by
  decide +kernel

end Switchboard.Diagnostics
