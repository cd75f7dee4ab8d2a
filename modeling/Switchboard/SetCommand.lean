import Switchboard.Registry
import Switchboard.Text.Blank
import Switchboard.Toggle

/-!
# The set command

A line whose first word is the command lists all switches, shows one, or changes one. Mistakes of
the user come back as a refusal with a message.
-/

namespace Switchboard

structure Reply where
  success : Bool
  output : Text
  deriving DecidableEq, Repr

namespace SetCommand

def name : Text := "set"

def word : Text := "/set"

def usage : Text := "usage: /set [<setting> [on|off]]"

def restartNotice : Text := "(takes effect after restart)"

def isCommand (line : Text) : Bool :=
  line.words.head? == some word

def entryText (d : Descriptor) (value : Json) : Text :=
  d.id ++ " = " ++ Toggle.format value ++ "  (" ++ d.help.plain ++ ")"

def listAll (r : Registry) : Reply :=
  ⟨true, Text.joinWith "\n" (r.settings.map fun s => entryText s.descriptor s.value)⟩

def showOne (id : Text) (r : Registry) : Reply :=
  match r.setting? id with
  | none => ⟨false, (Failure.unknownSetting (.str id)).message⟩
  | some s => ⟨true, entryText s.descriptor s.value⟩

def toggledText (d : Descriptor) (on : Bool) : Text :=
  d.id ++ " = " ++ Toggle.word on ++ (if d.requiresRestart.isTruthy then " " ++ restartNotice else "")

/-- Changes a switch. That the switch is unknown is a refusal; any other failure to set it passes
through. -/
def toggle (id token : Text) (r : Registry) (host : Host) :
    Except Failure Reply × Registry × Host :=
  match Toggle.parse (.str token) with
  | .error e => (.ok ⟨false, e.message ++ "\n" ++ usage⟩, r, host)
  | .ok on =>
    match r.descriptor id with
    | .error e => (.ok ⟨false, e.message⟩, r, host)
    | .ok d =>
      match r.set id (.bool on) host with
      | (.ok (), r, host) => (.ok ⟨true, toggledText d on⟩, r, host)
      | (.error (.unknownSetting other), r, host) =>
        (.ok ⟨false, (Failure.unknownSetting other).message⟩, r, host)
      | (.error e, r, host) => (.error e, r, host)

def run (args : List Text) (r : Registry) (host : Host) :
    Except Failure Reply × Registry × Host :=
  match args with
  | [] => (.ok (listAll r), r, host)
  | [id] => (.ok (showOne id r), r, host)
  | [id, token] => toggle id token r host
  | _ => (.ok ⟨false, usage⟩, r, host)

/-- Runs a line of input; a line that is not the command has no reply. -/
def execute (line : Text) (r : Registry) (host : Host) :
    Except Failure (Option Reply) × Registry × Host :=
  if isCommand line then
    match run line.words.tail r host with
    | (.ok reply, r, host) => (.ok (some reply), r, host)
    | (.error e, r, host) => (.error e, r, host)
  else
    (.ok none, r, host)

end SetCommand

end Switchboard
