import Switchboard.RecordFile

/-!
# Settings backends

A backend loads the stored value of a switch and saves a position. It is the settings file, or a
script that tells beforehand what each load yields and how each save ends.
-/

namespace Switchboard

/-- What loads yield by identifier, and how the saves to come end; a save past the end of the list
succeeds. -/
structure Script where
  loads : Record Text (Except Failure Json) := []
  saves : List (Option Failure) := []

inductive Backend
  | file (f : RecordFile)
  | script (s : Script)

namespace Backend

/-- The stored value, or null where there is none. -/
def load (id : Text) (backend : Backend) (host : Host) :
    Except Failure Json × Backend × Host :=
  match backend with
  | file f =>
    match f.load id host with
    | (.ok (some b), f, host) => (.ok (.bool b), .file f, host)
    | (.ok none, f, host) => (.ok .null, .file f, host)
    | (.error e, f, host) => (.error e, .file f, host)
  | script s => ((s.loads.get? id).getD (.ok .null), .script s, host)

def save (id : Text) (value : Json) (backend : Backend) (host : Host) :
    Except Failure Unit × Backend × Host :=
  match backend with
  | file f =>
    match f.save id value host with
    | (result, f, host) => (result, .file f, host)
  | script s =>
    match s.saves with
    | some e :: rest => (.error e, .script { s with saves := rest }, host)
    | none :: rest => (.ok (), .script { s with saves := rest }, host)
    | [] => (.ok (), .script s, host)

end Backend

end Switchboard
