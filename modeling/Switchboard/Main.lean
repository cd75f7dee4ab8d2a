import Switchboard.Launch
import Std.Time.Format
import Std.Time.Zoned

/-!
# The program

The shell on a terminal. What the client may look at is read into a file tree when the program
starts. After every line of input the difference that the line has made to the tree is carried out
on the disk, and what has been written to the console is shown.
-/

namespace Switchboard.Terminal

/-- The characters of a text; surrogates have none. -/
def stringOf (t : Text) : String :=
  String.ofList ((t.filter fun c => !decide c.IsSurrogate).map fun c => Char.ofNat c.val)

def diskName (path : FilePath) : String := stringOf path.toText

/-- The direct path to a location. Bytes that are no UTF-8 have no characters. -/
def pathTo (l : Location) : FilePath :=
  ⟨if l.fromRoot then "/" else [], l.names.map fun name => (Utf8.decode name).toOption.getD []⟩

/-! ## The time -/

def timestampOf (now : Std.Time.PlainDateTime) : Timestamp :=
  { year := now.year.toInt.toNat
    month := now.month.toNat
    day := now.day.toNat
    hour := now.hour.toNat
    minute := now.minute.toNat
    second := now.second.toNat }

def lineHead (now : Std.Time.PlainDateTime) : Text :=
  now.format "uuuu-MM-dd HH:mm:ss,SSS" ++ " - "

/-! ## The disk -/

def isDirectoryOnDisk (path : FilePath) : IO Bool := do
  try
    discard (IO.FS.realPath (diskName path ++ "/."))
    return true
  catch _ => return false

def forbid (path : FilePath) (faults : Faults) : Faults :=
  let message := some (FileError.numbered 13 "Permission denied" path)
  if path.lastName = RecordFile.fileName then { faults with openFile := message }
  else if path.lastName = Client.historyName then { faults with readText := message }
  else faults

/-- Reads what stands at a path into the tree of a host. -/
def look (host : Host) (path : FilePath) : IO Host := do
  if ← isDirectoryOnDisk path then
    return { host with tree := host.tree.put path .directory }
  try
    let contents ← IO.FS.readBinFile (diskName path)
    return { host with tree := host.tree.put path (.file contents.toList) }
  catch
    | .permissionDenied .. =>
      return { host with
        tree := host.tree.put path (.file [])
        faults := forbid path host.faults }
    | _ => return host

/-- The directories of the client and those above them, and the files that it reads. -/
def watched (environment : Environment) : List FilePath :=
  let settings := environment.settingsDirectory
  let logs := environment.logDirectory
  settings.ancestors ++ [settings] ++ logs.ancestors ++ [logs] ++
    [settings.child RecordFile.fileName, settings.child Client.historyName]

def lookAround (environment : Environment) (clock : Timestamp) : IO Host :=
  (watched environment).foldlM look { tree := ⟨[]⟩, clock }

/-- Brings a file to the disk: a log grows, any other file is replaced as a whole. -/
def carryOutFile (isLog : Bool) (head : Text) (path : FilePath) (old new : Bytes) : IO Unit := do
  if isLog then
    let lines := ((Utf8.decode (new.drop old.length)).toOption.getD []).inputLines
    let file ← IO.FS.Handle.mk (diskName path) .append
    file.write ⟨(Utf8.encodeLossy (lines.flatMap (head ++ ·))).toArray⟩
  else
    let temporary := diskName (path.parent.child (path.lastName ++ ".new"))
    IO.FS.writeBinFile temporary ⟨new.toArray⟩
    IO.FS.rename temporary (diskName path)

/-- Brings to the disk what a tree has more than an earlier one. -/
def carryOut (environment : Environment) (d : Diagnostics) (head : Text) (before after : FileTree) :
    IO Unit := do
  for (place, node) in after.entries do
    let path := pathTo place
    if before.entries.get? place ≠ some node then
      match node with
      | .directory => IO.FS.createDirAll (diskName path)
      | .file contents =>
        let old := match before.entries.get? place with
          | some (.file old) => old
          | _ => []
        let isLog := decide (path.parent.location = environment.logDirectory.location)
        let head := if d.sinks.any (·.writesTo place) then head else []
        carryOutFile isLog head path old contents

/-! ## A session -/

structure Session where
  environment : Environment
  diagnostics : Diagnostics
  host : Host

/-- Takes a step at the present time, and carries out what it has done. A refusal of the disk is
shown and does not end the session. -/
def Session.step {α : Type} (act : Host → α × Host) (s : Session) : IO (α × Session) := do
  let now ← Std.Time.PlainDateTime.now
  let (result, host) := act { s.host with clock := timestampOf now }
  let (diagnostics, host) := Launch.deliver s.diagnostics host
  try carryOut s.environment diagnostics (lineHead now) s.host.tree host.tree
  catch e => IO.eprintln s!"ERROR: {e}"
  let shown := s.diagnostics.consoles.flatten.length
  IO.eprint (stringOf (diagnostics.consoles.flatten.drop shown))
  return (result, { s with diagnostics, host })

def takeLines (output : IO.FS.Stream) : List Text → Shell → Session →
    IO (Except Failure Unit × Shell × Session)
  | [], shell, s => return (.ok (), shell, s)
  | raw :: rest, shell, s => do
    if shell.stopped then return (.ok (), shell, s)
    let ((result, shell), s) ← s.step fun host =>
      let (result, shell, host) := shell.take raw host
      let (client, host) := shell.client.flush host
      ((result, { shell with client }), host)
    match result with
    | .error e => return (.error e, shell, s)
    | .ok written =>
      output.putStr (stringOf written)
      output.flush
      takeLines output rest shell s

/-- Reads and takes lines until the input ends or the shell stops. -/
partial def converse (input output : IO.FS.Stream) (shell : Shell) (s : Session) :
    IO (Except Failure Unit × Shell × Session) := do
  if shell.stopped then return (.ok (), shell, s)
  let read ← input.getLine
  if read.isEmpty then return (.ok (), shell, s)
  match ← takeLines output (Text.ofString read).unifyBreaks.inputLines shell s with
  | (.ok (), shell, s) => converse input output shell s
  | failed => return failed

def entryName : Text := "mudsettings.main"

def fail (e : Failure) : IO UInt32 := do
  IO.eprintln (stringOf e.message)
  return 1

def attend (s : Session) : IO UInt32 := do
  let (entered, s) ← s.step (Launch.enter entryName s.environment)
  match entered with
  | .error e => fail e
  | .ok shell =>
    let (result, shell, s) ← converse (← IO.getStdin) (← IO.getStdout) shell s
    let (left, _) ← s.step (Launch.leave entryName result shell.client)
    match left with
    | .error e => fail e
    | .ok () => return 0

def environment : IO Environment := do
  let named (name : String) : IO (Option Text) := do
    return (← IO.getEnv name).map Text.ofString
  return { home := (← named "HOME").getD "/"
           configHome := ← named "XDG_CONFIG_HOME"
           cacheHome := ← named "XDG_CACHE_HOME" }

def start : IO UInt32 := do
  let environment ← environment
  let now ← Std.Time.PlainDateTime.now
  let host ← lookAround environment (timestampOf now)
  let (result, diagnostics, after) :=
    Diagnostics.initial.setUp "INFO" (some environment.logDirectory) host
  carryOut environment diagnostics (lineHead now) host.tree after.tree
  match result with
  | .error e => fail e
  | .ok () => attend { environment, diagnostics, host := after }

end Switchboard.Terminal

def main : IO UInt32 := Switchboard.Terminal.start
