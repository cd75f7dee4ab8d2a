import Switchboard.Registry
import Switchboard.Text.Lines

/-!
# The session transcript

The transcript of a session is appended to a file that is opened when the first line is written and
closed as soon as logging is off. A line is accepted into the buffer of the open file, and a flush
brings the buffer to the disk. Any of these steps may fail; after a failed write the file is closed,
and the next line opens one again.
-/

namespace Switchboard

structure OpenFile where
  /-- The direct path that the file was opened at. -/
  path : FilePath
  /-- What has been accepted and not yet brought to the disk. -/
  buffer : Bytes := []
  /-- Whether the file has been closed behind the transcript's back. -/
  closed : Bool := false
  /-- Whether the path still names this file. -/
  named : Bool := true
  /-- The breakages of the file, latest first. -/
  breakages : List Breakage := []
  deriving DecidableEq, Repr

namespace OpenFile

def accept (t : Text) (f : OpenFile) : Except Failure OpenFile :=
  match f.breakages.findSome? Breakage.write with
  | some message => .error (.file (.device message))
  | none =>
    if f.closed then .error .closedFile
    else
      match Utf8.encode t with
      | .error e => .error (.unencodable e)
      | .ok bytes => .ok { f with buffer := f.buffer ++ bytes }

def settle (f : OpenFile) (host : Host) : OpenFile × Host :=
  if f.named then
    match host.tree.append f.path f.buffer with
    | .ok tree => ({ f with buffer := [] }, { host with tree })
    | .error _ => ({ f with buffer := [] }, host)
  else
    ({ f with buffer := [] }, host)

def flush (f : OpenFile) (host : Host) : Except Failure Unit × OpenFile × Host :=
  match f.breakages.findSome? Breakage.flush with
  | some message => (.error (.file (.device message)), f, host)
  | none => (.ok (), f.settle host)

/-- Closes the file. The buffer reaches the disk even when closing fails; of several breakages the
first one speaks, since it is nearest to the file. -/
def close (f : OpenFile) (host : Host) : Except Failure Unit × Host :=
  let host := (f.settle host).2
  match f.breakages.reverse.findSome? Breakage.close with
  | some message => (.error (.file (.device message)), host)
  | none => (.ok (), host)

end OpenFile

structure Transcript where
  directory : FilePath
  path : Option FilePath := none
  file : Option OpenFile := none
  deriving DecidableEq, Repr

namespace Transcript

def isOpen (t : Transcript) : Bool :=
  t.file.isSome

def fileName (clock : Timestamp) : Text :=
  "session_" ++ clock.stamp ++ ".log"

def pathText (t : Transcript) : Text :=
  match t.path with
  | some path => path.toText
  | none => "None"

def close (t : Transcript) (host : Host) : Transcript × Host :=
  match t.file with
  | none => (t, host)
  | some f =>
    let (result, host) := f.close host
    let host :=
      match result with
      | .ok () => host
      | .error e =>
        host.note .error .components ("Failed to close session log: " ++ e.message)
    ({ t with file := none },
      host.note .info .components ("Closed session log " ++ t.pathText))

/-- Opens the file for the present time, after making its directory. -/
def openFile (path : FilePath) (directory : FilePath) (host : Host) :
    Except FileError OpenFile × Host :=
  match host.makeDirectories directory with
  | (.error e, host) => (.error e, host)
  | (.ok (), host) =>
    match host.faults.openFile with
    | some message => (.error (.device message), host)
    | none =>
      match host.tree.append path [] with
      | .error e => (.error e, host)
      | .ok tree =>
        (.ok { path := path.direct, breakages := [host.faults.newFile] }, { host with tree })

/-- Makes sure that a file is open. A refusal of the system is logged. -/
def ensureOpen (t : Transcript) (host : Host) : Except Failure Bool × Transcript × Host :=
  match t.file with
  | some _ => (.ok true, t, host)
  | none =>
    let path := t.directory.child (fileName host.clock)
    match openFile path t.directory host with
    | (.ok f, host) =>
      (.ok true, { t with path := some path, file := some f },
        host.note .info .components ("Session logging to " ++ path.toText))
    | (.error e, host) =>
      if e.isFromSystem then
        (.ok false, t,
          host.note .error .components
            ("Failed to open session log " ++ path.toText ++ ": " ++ e.message))
      else
        (.error (.file e), t, host)

def giveUp (e : Failure) (t : Transcript) (host : Host) : Transcript × Host :=
  t.close (host.note .error .components ("Failed to write session log: " ++ e.message))

def writeOpen (line : Text) (t : Transcript) (host : Host) : Bool × Transcript × Host :=
  match t.file with
  | none => (false, t, host)
  | some f =>
    match f.accept (line ++ [Text.newline]) with
    | .error e => (false, t.giveUp e host)
    | .ok f =>
      match f.flush host with
      | (.error e, f, host) => (false, { t with file := some f }.giveUp e host)
      | (.ok (), f, host) => (true, { t with file := some f }, host)

/-- Writes a line while logging is on, and tells whether it was written. While logging is off the
file is closed instead. -/
def write (loggingOn : Bool) (line : Text) (t : Transcript) (host : Host) :
    Except Failure Bool × Transcript × Host :=
  if loggingOn then
    match t.ensureOpen host with
    | (.error e, t, host) => (.error e, t, host)
    | (.ok false, t, host) => (.ok false, t, host)
    | (.ok true, t, host) =>
      let (written, t, host) := t.writeOpen line host
      (.ok written, t, host)
  else
    let (t, host) := t.close host
    (.ok false, t, host)

def settingChanged (id : Text) (value : Json) (t : Transcript) (host : Host) :
    Transcript × Host :=
  if id = Descriptor.loggingEnabled ∧ ¬ value.isTruthy then t.close host else (t, host)

def hear : List Heard → Transcript → Host → Transcript × Host
  | [], t, host => (t, host)
  | change :: rest, t, host =>
    let (t, host) := t.settingChanged change.id (.bool change.value) host
    hear rest t host

/-! ## What happens to the open file from outside -/

def overFile (act : OpenFile → OpenFile) (t : Transcript) : Transcript :=
  { t with file := t.file.map act }

/-- Closes the open file while the transcript goes on to hold it. -/
def closeBehindBack (t : Transcript) (host : Host) : Except Failure Unit × Transcript × Host :=
  match t.file with
  | none => (.ok (), t, host)
  | some f =>
    let (result, host) := f.close host
    (result, { t with file := some { f with buffer := [], closed := true } }, host)

def breakFile (b : Breakage) : Transcript → Transcript :=
  overFile fun f => { f with breakages := b :: f.breakages }

/-- The open file loses its name when that is removed, or a directory above it. -/
def loseName (removed : FilePath) : Transcript → Transcript :=
  overFile fun f =>
    if f.path.location.IsWithin removed.location then { f with named := false } else f

end Transcript

end Switchboard
