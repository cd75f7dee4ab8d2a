import Switchboard.Failure
import Switchboard.File.Tree

/-!
# The host

The host is what the client stands on: a file tree, a clock, the faults that calls meet at the
moment, and the diagnostic log lines made so far. Faults are set from outside and stay until they
are set again.
-/

namespace Switchboard

structure Timestamp where
  year : Nat
  month : Nat
  day : Nat
  hour : Nat
  minute : Nat
  second : Nat
  deriving DecidableEq, Repr

namespace Timestamp

def stamp (t : Timestamp) : Text :=
  Text.ofNat t.year ++ Text.padded 2 t.month ++ Text.padded 2 t.day ++ "_" ++
    Text.padded 2 t.hour ++ Text.padded 2 t.minute ++ Text.padded 2 t.second

end Timestamp

/-- Words with which the calls on an open file fail. -/
structure Breakage where
  write : Option Text := none
  flush : Option Text := none
  close : Option Text := none
  deriving DecidableEq, Repr

/-- The calls that fail at the moment, each with the words of its failure. -/
structure Faults where
  openFile : Option Text := none
  makeDirectory : Option Text := none
  makeTemporary : Option Text := none
  openTemporary : Option Text := none
  replaceFile : Option Text := none
  readText : Option Text := none
  writeText : Option Text := none
  /-- The breakage of a transcript file that is opened meanwhile. -/
  newFile : Breakage := {}
  deriving DecidableEq, Repr

inductive Severity
  | debug
  | info
  | warning
  | error
  deriving DecidableEq, Repr

def Severity.level : Severity → Int
  | debug => 10
  | info => 20
  | warning => 30
  | error => 40

inductive Source
  | registry
  | storage
  | components
  | client
  | named (name : Text)
  deriving DecidableEq, Repr

def Source.name : Source → Text
  | registry => "mudsettings.config.settings"
  | storage => "mudsettings.config.persistence"
  | components => "mudsettings.core.listeners"
  | client => "mudsettings.runtime"
  | named name => name

/-- Who acts: the client, or the worker that writes settings in the background. -/
inductive Party
  | client
  | worker
  deriving DecidableEq, Repr

structure LogLine where
  party : Party
  severity : Severity
  source : Source
  message : Text
  deriving DecidableEq, Repr

structure Host where
  tree : FileTree
  clock : Timestamp
  faults : Faults := {}
  acting : Party := .client
  log : List LogLine := []
  deriving DecidableEq, Repr

namespace Host

def note (severity : Severity) (source : Source) (message : Text) (host : Host) : Host :=
  { host with log := host.log ++ [⟨host.acting, severity, source, message⟩] }

/-- What an action leaves of the host when another party performs it. -/
def actingAs {α : Type} (party : Party) (action : Host → α × Host) (host : Host) : α × Host :=
  let (result, after) := action { host with acting := party }
  (result, { after with acting := host.acting })

def makeDirectories (path : FilePath) (host : Host) : Except FileError Unit × Host :=
  match host.faults.makeDirectory with
  | some message => (.error (.device message), host)
  | none =>
    let (result, tree) := host.tree.makeDirectories path
    (result, { host with tree })

def fillTemporary (directory temporary target : FilePath) (contents : Bytes) (host : Host) :
    Except FileError Host :=
  match host.faults.openTemporary with
  | some message => .error (.device message)
  | none =>
    match host.faults.replaceFile with
    | some message => .error (.device message)
    | none =>
      match host.tree.occupancy target with
      | .taken .directory => .error (.replacesDirectory directory target)
      | _ =>
        .ok { host with tree := (host.tree.remove temporary).put target (.file contents) }

/-- The path of a temporary file is longer than paths may be. Eight characters of its name are
random, and it is reached by the direct path of its directory. -/
def TemporaryTooLong (directory : FilePath) : Prop :=
  let name : Text := ".settings-" ++ List.replicate 8 (CodePoint.ofChar '*') ++ ".json"
  (directory.direct.child name).TooLong

instance (directory : FilePath) : Decidable (TemporaryTooLong directory) :=
  inferInstanceAs (Decidable (FilePath.TooLong _))

/-- Replaces a file in a directory as a whole: either the target holds the new contents afterwards,
or no file has changed. The directory is made first if it is missing. -/
def replaceFile (directory target : FilePath) (contents : Bytes) (host : Host) :
    Except FileError Unit × Host :=
  match host.makeDirectories directory with
  | (.error e, host) => (.error e, host)
  | (.ok (), host) =>
    match host.faults.makeTemporary with
    | some message => (.error (.device message), host)
    | none =>
      if TemporaryTooLong directory then
        (.error (.nameTooLong (directory.direct.child FileError.temporaryName)), host)
      else
        let temporary := directory.child host.tree.unusedName
        let host := { host with tree := host.tree.put temporary (.file []) }
        match host.fillTemporary directory temporary target contents with
        | .ok host => (.ok (), host)
        | .error e => (.error e, { host with tree := host.tree.remove temporary })

@[simp] theorem tree_note (host : Host) (severity : Severity) (source : Source) (message : Text) :
    (host.note severity source message).tree = host.tree := rfl

@[simp] theorem faults_note (host : Host) (severity : Severity) (source : Source)
    (message : Text) : (host.note severity source message).faults = host.faults := rfl

end Host

end Switchboard
