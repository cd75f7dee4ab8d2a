import Switchboard.Directories
import Switchboard.Host
import Switchboard.Text.Capital
import Switchboard.Text.Lines

/-!
# Diagnostics

Diagnostic log lines go to a console and, on demand, to a file. Every set-up names a level and
replaces the sinks of the one before: the console shows warnings and what is worse, the file
whatever passes the level and is not below debugging. The time that a file puts before each line is
left out here.
-/

namespace Switchboard

/-- A place that log lines are written to. Consoles are numbered by the set-up that opened them, and
files are known by their direct paths. -/
inductive Sink
  | console (number : Nat)
  | file (path : FilePath)
  deriving DecidableEq, Repr

def Sink.writesTo (place : Location) : Sink → Bool
  | console _ => false
  | file path => path.location = place

def Sink.threshold : Sink → Int
  | console _ => 30
  | file _ => 10

/-- A message to be logged. The root logger has the empty name. -/
structure LogMessage where
  logger : Text
  level : Int
  text : Text
  deriving DecidableEq, Repr

structure Diagnostics where
  level : Int
  sinks : List Sink := []
  /-- What has been written to each console, in the order of the set-ups. -/
  consoles : List Text := []
  deriving DecidableEq, Repr

namespace Diagnostics

/-- What a level name in capitals stands for. Two of the names stand for something else than a
level. -/
inductive NamedValue
  | level (n : Int)
  | text (t : Text)
  | table (shown : Text)
  deriving DecidableEq, Repr

def lineFormat : Text := "%(levelname)s:%(name)s:%(message)s"

def styleTable : Text :=
  "\x7b'%': (<class 'logging.PercentStyle'>, '%(levelname)s:%(name)s:%(message)s'), " ++
    "'\x7b': (<class 'logging.StrFormatStyle'>, " ++
    "'\x7blevelname\x7d:\x7bname\x7d:\x7bmessage\x7d'), " ++
    "'$': (<class 'logging.StringTemplateStyle'>, " ++
    "'$\x7blevelname\x7d:$\x7bname\x7d:$\x7bmessage\x7d')\x7d"

def namedValues : List (Text × NamedValue) :=
  [("CRITICAL", .level 50), ("FATAL", .level 50), ("ERROR", .level 40), ("WARNING", .level 30),
    ("WARN", .level 30), ("INFO", .level 20), ("DEBUG", .level 10), ("NOTSET", .level 0),
    ("BASIC_FORMAT", .text lineFormat), ("_STYLES", .table styleTable)]

def infoLevel : Int := 20

/-- The level that a name stands for in any case of its letters; an unknown name stands for
information. -/
def levelNamed (name : Text) : Except Failure Int :=
  match namedValues.lookup name.capital with
  | none => .ok infoLevel
  | some (.level n) => .ok n
  | some (.text t) => .error (.unknownLevel t)
  | some (.table shown) => .error (.notLevel shown)

def levelText (level : Int) : Text :=
  if level = 50 then "CRITICAL"
  else if level = 40 then "ERROR"
  else if level = 30 then "WARNING"
  else if level = 20 then "INFO"
  else if level = 10 then "DEBUG"
  else if level = 0 then "NOTSET"
  else "Level " ++ Text.ofInt level

def loggerText (m : LogMessage) : Text :=
  if m.logger = [] then "root" else m.logger

def consoleLine (m : LogMessage) : Text :=
  levelText m.level ++ ": " ++ m.text ++ [Text.newline]

def fileLine (m : LogMessage) : Text :=
  loggerText m ++ " - " ++ levelText m.level ++ " - " ++ m.text ++ [Text.newline]

/-- Writes a message to a sink. A line without a byte form does not reach a file. -/
def deliver (m : LogMessage) (sink : Sink) (d : Diagnostics) (host : Host) : Diagnostics × Host :=
  if m.level < sink.threshold then (d, host)
  else
    match sink with
    | .console number =>
      ({ d with consoles := d.consoles.modify number (· ++ consoleLine m) }, host)
    | .file path =>
      match Utf8.encode (fileLine m) with
      | .error _ => (d, host)
      | .ok bytes =>
        match host.tree.append path bytes with
        | .error _ => (d, host)
        | .ok tree => (d, { host with tree })

def deliverAll (m : LogMessage) : List Sink → Diagnostics → Host → Diagnostics × Host
  | [], d, host => (d, host)
  | sink :: rest, d, host =>
    let (d, host) := deliver m sink d host
    deliverAll m rest d host

/-- Logs a message. Messages at level zero and below are never enabled. -/
def log (m : LogMessage) (d : Diagnostics) (host : Host) : Diagnostics × Host :=
  if m.level ≤ 0 ∨ m.level < d.level then (d, host) else deliverAll m d.sinks d host

def fileName (clock : Timestamp) : Text :=
  "mudsettings_" ++ clock.stamp ++ ".log"

def filePath (directory : FilePath) (clock : Timestamp) : FilePath :=
  (directory.child (fileName clock)).direct

def openFile (directory : FilePath) (host : Host) : Except FileError FilePath × Host :=
  match host.makeDirectories directory with
  | (.error e, host) => (.error e, host)
  | (.ok (), host) =>
    match host.faults.openFile with
    | some message => (.error (.device message), host)
    | none =>
      let path := filePath directory host.clock
      match host.tree.append path [] with
      | .error e => (.error e, host)
      | .ok tree => (.ok path, { host with tree })

/-- Sets diagnostics up with a new console. The level is set first, then the console replaces the
sinks there were, and the file comes last. -/
def setUp (levelName : Text) (file : Option FilePath) (d : Diagnostics) (host : Host) :
    Except Failure Unit × Diagnostics × Host :=
  let number := d.consoles.length
  let d := { d with consoles := d.consoles ++ [[]] }
  match levelNamed levelName with
  | .error e => (.error e, d, host)
  | .ok level =>
    let d := { d with level, sinks := [.console number] }
    match file with
    | none => (.ok (), d, host)
    | some directory =>
      match openFile directory host with
      | (.error e, host) => (.error (.file e), d, host)
      | (.ok path, host) =>
        let d := { d with sinks := [.console number, .file path] }
        (.ok (), log ⟨[], infoLevel, "Diagnostics written to " ++ path.toText⟩ d host)

/-- Before any set-up, warnings and what is worse would be logged, but there is nowhere to write. -/
def initial : Diagnostics := { level := 30 }

def logLines : List LogLine → Diagnostics → Host → Diagnostics × Host
  | [], d, host => (d, host)
  | line :: rest, d, host =>
    let (d, host) := log ⟨line.source.name, line.severity.level, line.message⟩ d host
    logLines rest d host

end Diagnostics

end Switchboard
