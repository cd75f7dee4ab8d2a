import Switchboard.History
import Switchboard.Scrollback
import Switchboard.SetCommand
import Switchboard.Transcript

/-!
# The client

A client owns one registry and the parts that go by it: the set command, the transcript, scrollback
and the history. It is made at startup and torn down once.
-/

namespace Switchboard

structure Client where
  registry : Registry
  transcript : Transcript
  scrollback : Scrollback
  history : History
  down : Bool := false

namespace Client

/-- The tag under which changes are recorded for the transcript. -/
def feedTag : Text := "transcript"

def historyName : Text := "history"

/-- Starts a client on a directory for settings and history and one for transcripts. Settings are
kept in the file of the first directory unless another backend is given. -/
def start (settingsDirectory logDirectory : FilePath) (backend : Option Backend) (host : Host) :
    Except Failure Client × Host :=
  let backend := backend.getD (.file { directory := settingsDirectory })
  match Registry.start .builtin (some backend) host with
  | (.error e, host) => (.error e, host)
  | (.ok registry, host) =>
    match registry.get Descriptor.mouseEnabled, registry.isOn Descriptor.saveHistory with
    | .error e, _ => (.error e, host)
    | _, .error e => (.error e, host)
    | .ok mouse, .ok kept =>
      let (scrollback, host) := Scrollback.start mouse host
      let history : History := { path := settingsDirectory.child historyName }
      match history.load kept host with
      | (.error e, _, host) => (.error e, host)
      | (.ok (), history, host) =>
        (.ok
          { registry := registry.connect (.recorder feedTag)
            transcript := { directory := logDirectory }
            scrollback
            history },
          host)

/-- Lets the transcript hear the changes recorded past a given number of them. -/
def relay (known : Nat) (c : Client) (host : Host) : Client × Host :=
  let (transcript, host) := c.transcript.hear (c.registry.heard.drop known) host
  ({ c with transcript }, host)

def set (id : Text) (value : Json) (c : Client) (host : Host) :
    Except Failure Unit × Client × Host :=
  let known := c.registry.heard.length
  let (result, registry, host) := c.registry.set id value host
  (result, { c with registry }.relay known host)

def execute (line : Text) (c : Client) (host : Host) :
    Except Failure (Option Reply) × Client × Host :=
  let known := c.registry.heard.length
  let (result, registry, host) := SetCommand.execute line c.registry host
  (result, { c with registry }.relay known host)

def record (line : Text) (c : Client) (host : Host) : Except Failure Unit × Client × Host :=
  match c.registry.isOn Descriptor.loggingEnabled with
  | .error e => (.error e, c, host)
  | .ok loggingOn =>
    match c.transcript.write loggingOn line host with
    | (.error e, transcript, host) => (.error e, { c with transcript }, host)
    | (.ok _, transcript, host) => (.ok (), { c with transcript }, host)

/-- Handles a line of input: the set command is run, and any other line is recorded. -/
def handleLine (line : Text) (c : Client) (host : Host) :
    Except Failure (Option Reply) × Client × Host :=
  match { c with history := c.history.add line }.execute line host with
  | (.error e, c, host) => (.error e, c, host)
  | (.ok (some reply), c, host) => (.ok (some reply), c, host)
  | (.ok none, c, host) =>
    match c.record line host with
    | (.error e, c, host) => (.error e, c, host)
    | (.ok (), c, host) => (.ok none, c, host)

def wheel (notches : Int) (c : Client) : Bool × Client :=
  let (scrolled, scrollback) := c.scrollback.wheel notches
  (scrolled, { c with scrollback })

/-- Saves the history, closes the transcript, and waits for the settings to be saved. Only the first
call does anything. -/
def shutdown (c : Client) (host : Host) : Except Failure Unit × Client × Host :=
  if c.down then (.ok (), c, host)
  else
    let c := { c with down := true }
    match c.registry.isOn Descriptor.saveHistory with
    | .error e => (.error e, c, host)
    | .ok kept =>
      match c.history.save kept host with
      | (.error e, host) => (.error e, c, host)
      | (.ok (), host) =>
        let (transcript, host) := c.transcript.close host
        let (registry, host) := c.registry.close host
        (.ok (), { c with transcript, registry },
          host.note .info .client "Client runtime shut down")

def flush (c : Client) (host : Host) : Client × Host :=
  let (registry, host) := c.registry.flush host
  ({ c with registry }, host)

end Client

end Switchboard
