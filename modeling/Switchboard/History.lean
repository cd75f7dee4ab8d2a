import Switchboard.Registry
import Switchboard.Text.Blank
import Switchboard.Text.Lines

/-!
# Input history

The history keeps the newest lines of input, leaves out blank lines and immediate repeats, and can
be kept in a file between sessions. The file holds one entry a line.
-/

namespace Switchboard

structure History where
  path : FilePath
  maxEntries : Int := 500
  entries : List Text := []
  deriving DecidableEq, Repr

namespace History

/-- The last entries, as many as allowed. A limit of zero allows every one, and a limit below zero
leaves out that many from the front. -/
def newest (limit : Int) (entries : List Text) : List Text :=
  if 0 < limit then entries.drop (entries.length - limit.toNat) else entries.drop (-limit).toNat

def entriesOf (t : Text) : List Text :=
  t.unifyBreaks.lines

def fileText (entries : List Text) : Text :=
  entries.flatMap fun entry => entry ++ [Text.newline]

def readFile (h : History) (host : Host) : Except Failure Text :=
  match host.faults.readText with
  | some message => .error (.file (.device message))
  | none =>
    match host.tree.read h.path with
    | .error e => .error (.file e)
    | .ok contents =>
      match Utf8.decode contents with
      | .error e => .error (.undecodable e)
      | .ok t => .ok t

/-- Loads the entries when they are kept and there is a file. A refusal of the system is logged. -/
def load (kept : Bool) (h : History) (host : Host) : Except Failure Unit × History × Host :=
  if kept then
    match host.tree.exists? h.path with
    | .error e => (.error (.file e), h, host)
    | .ok false => (.ok (), h, host)
    | .ok true =>
      match h.readFile host with
      | .error e =>
        if e.isFromSystem then
          (.ok (), h, host.note .error .components ("Failed to load history: " ++ e.message))
        else
          (.error e, h, host)
      | .ok t =>
        let entries := newest h.maxEntries (entriesOf t)
        (.ok (), { h with entries },
          host.note .info .components
            ("Loaded " ++ Text.ofNat entries.length ++ " history entries"))
  else
    (.ok (), h, host)

def add (line : Text) (h : History) : History :=
  if line.strip = [] ∨ h.entries.getLast? = some line then h
  else { h with entries := newest h.maxEntries (h.entries ++ [line]) }

/-- Empties the file and writes the entries to it. Entries that have no byte form leave it empty. -/
def writeFile (h : History) (host : Host) : Except Failure Unit × Host :=
  match host.faults.writeText with
  | some message => (.error (.file (.device message)), host)
  | none =>
    match host.tree.write h.path [] with
    | .error e => (.error (.file e), host)
    | .ok tree =>
      match Utf8.encode (fileText h.entries) with
      | .error e => (.error (.unencodable e), { host with tree })
      | .ok contents => (.ok (), { host with tree := tree.put h.path (.file contents) })

/-- Writes the file, after making its directory. -/
def store (h : History) (host : Host) : Except Failure Unit × Host :=
  match host.makeDirectories h.path.parent with
  | (.error e, host) => (.error (.file e), host)
  | (.ok (), host) => h.writeFile host

def save (kept : Bool) (h : History) (host : Host) : Except Failure Unit × Host :=
  if kept then
    match h.store host with
    | (.ok (), host) =>
      (.ok (),
        host.note .info .components
          ("Saved " ++ Text.ofNat h.entries.length ++ " history entries"))
    | (.error e, host) =>
      if e.isFromSystem then
        (.ok (), host.note .error .components ("Failed to save history: " ++ e.message))
      else
        (.error e, host)
  else
    (.ok (), host)

end History

end Switchboard
