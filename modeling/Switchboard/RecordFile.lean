import Switchboard.Host
import Switchboard.Json.Printer
import Switchboard.Text.Lines

/-!
# The settings file

The settings file holds one JSON object. Its keeper reads the record once and writes the whole file
for every value saved, so entries that it does not know stay as they are. It keeps whatever it is
given, but gives back switch positions only. Values saved since the
file was last written are pending: they are laid over whatever is read later. A file that is there
but cannot be read stays unread, and nothing is written over it; a file that holds no record counts
as read and empty.
-/

namespace Switchboard

structure RecordFile where
  directory : FilePath
  data : Record Text Json := []
  pending : Record Text Json := []
  loaded : Bool := false

namespace RecordFile

/-- What an attempt to read the settings file comes to. -/
inductive Reading
  | absent
  | unreadable (e : FileError)
  | undecodable (cause : Failure)
  | notARecord
  | record (r : Record Text Json)

def fileName : Text := "settings.json"

def path (f : RecordFile) : FilePath :=
  f.directory.child fileName

def decode (contents : Bytes) : Reading :=
  match Utf8.decode contents with
  | .error e => .undecodable (.undecodable e)
  | .ok t =>
    match Json.parse t.unifyBreaks with
    | .error e => .undecodable (.notJson e)
    | .ok (.obj members) => .record members
    | .ok _ => .notARecord

/-- The bytes of a record; they are ASCII throughout. -/
def encode (r : Record Text Json) : Bytes :=
  Utf8.encodeLossy (Json.obj r).print

def reading (f : RecordFile) (host : Host) : Except FileError Reading :=
  match host.tree.exists? f.path with
  | .error e => .error e
  | .ok false => .ok .absent
  | .ok true =>
    match host.faults.openFile with
    | some message => .ok (.unreadable (.device message))
    | none =>
      match host.tree.read f.path with
      | .error e => .ok (.unreadable e)
      | .ok contents => .ok (decode contents)

/-- Takes a record as read, with the pending values laid over it. -/
def adopt (r : Record Text Json) (f : RecordFile) : RecordFile :=
  { f with
    data := r.putAll f.pending
    loaded := true }

def failure (f : RecordFile) (verb : Text) (why : Text) (cause : Option Failure) : Failure :=
  .persistence ("Failed to " ++ verb ++ " " ++ f.path.toText ++ ": " ++ why) cause

/-- Reads the file. A missing file yields an empty record. -/
def loadAll (f : RecordFile) (host : Host) :
    Except Failure (Record Text Json) × RecordFile × Host :=
  match f.reading host with
  | .error e => (.error (.file e), f, host)
  | .ok .absent =>
    (.ok [], f.adopt [], host.note .info .storage "No settings file found, using defaults")
  | .ok (.unreadable e) => (.error (f.failure "read" e.message (some (.file e))), f, host)
  | .ok (.undecodable cause) =>
    (.error (f.failure "decode" cause.message (some cause)), f.adopt [], host)
  | .ok .notARecord =>
    (.error (f.failure "load" "expected a JSON object" none), f.adopt [], host)
  | .ok (.record r) =>
    let f := f.adopt r
    (.ok f.data, f, host.note .info .storage ("Loaded settings from " ++ f.path.toText))

/-- Reads the file unless that has been done. -/
def ensureLoaded (f : RecordFile) (host : Host) : Except Failure Unit × RecordFile × Host :=
  if f.loaded then (.ok (), f, host)
  else
    match f.loadAll host with
    | (.ok _, f, host) => (.ok (), f, host)
    | (.error e, f, host) => (.error e, f, host)

/-- The stored position of a switch. A stored value that is no position is passed over. -/
def load (id : Text) (f : RecordFile) (host : Host) :
    Except Failure (Option Bool) × RecordFile × Host :=
  match f.ensureLoaded host with
  | (.error e, f, host) => (.error e, f, host)
  | (.ok (), f, host) =>
    match f.data.get? id with
    | none => (.ok none, f, host)
    | some (.bool b) => (.ok (some b), f, host)
    | some value =>
      (.ok none, f,
        host.note .warning .storage
          ("Ignoring invalid stored value for " ++ id ++ ": " ++ value.display))

/-- Writes the record in memory to the file, with one more value in it. -/
def writeOut (id : Text) (value : Json) (f : RecordFile) (host : Host) :
    Except Failure Unit × RecordFile × Host :=
  let f := { f with data := f.data.put id value }
  match host.replaceFile f.directory f.path (encode f.data) with
  | (.ok (), host) =>
    (.ok (), { f with pending := [] },
      host.note .debug .storage
        ("Saved " ++ id ++ "=" ++ value.plain ++ " to " ++ f.path.toText))
  | (.error e, host) =>
    if e.isFromSystem then
      (.error (f.failure "save" e.message (some (.file e))), f, host)
    else
      (.error (.file e), f, host)

/-- Saves a value. When the file has to be read first and cannot be, nothing is
written and the value stays pending. -/
def save (id : Text) (value : Json) (f : RecordFile) (host : Host) :
    Except Failure Unit × RecordFile × Host :=
  let f := { f with pending := f.pending.put id value }
  match f.ensureLoaded host with
  | (.ok (), f, host) => f.writeOut id value host
  | (.error e, f, host) =>
    if e.isPersistence ∧ f.loaded then f.writeOut id value host else (.error e, f, host)

end RecordFile

end Switchboard
