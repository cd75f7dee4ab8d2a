import Switchboard.Client

/-!
# The shell

The shell takes lines of input until it is told to stop. It listens for a line, or waits for the
answer to its question whether the user really wants to leave; at the end of the input it stops
either way.
-/

namespace Switchboard

structure Shell where
  client : Client
  /-- Whether the next line answers the question. -/
  asking : Bool := false
  stopped : Bool := false

namespace Shell

def quitWord : Text := "/quit"

def question : Text := "Really quit? (y/n) "

def isYes (answer : Text) : Bool :=
  match answer.strip with
  | [] => false
  | c :: _ => c = CodePoint.ofChar 'y' || c = CodePoint.ofChar 'Y'

/-- Takes a line of input and gives what is written for it. -/
def take (raw : Text) (s : Shell) (host : Host) : Except Failure Text × Shell × Host :=
  if s.asking then
    (.ok [], { s with asking := false, stopped := isYes raw }, host)
  else
    let line := raw.dropTrailingNewlines
    if line.strip = quitWord then
      match s.client.registry.isOn Descriptor.confirmQuit with
      | .error e => (.error e, s, host)
      | .ok true => (.ok question, { s with asking := true }, host)
      | .ok false => (.ok [], { s with stopped := true }, host)
    else
      match s.client.handleLine line host with
      | (.error e, client, host) => (.error e, { s with client }, host)
      | (.ok none, client, host) => (.ok [], { s with client }, host)
      | (.ok (some reply), client, host) =>
        (.ok (reply.output ++ [Text.newline]), { s with client }, host)

/-- Takes lines until the shell stops; gives what is written and the lines left. -/
def takeLines : List Text → Shell → Host → Except Failure (Text × List Text) × Shell × Host
  | [], s, host => (.ok ([], []), { s with stopped := true }, host)
  | raw :: rest, s, host =>
    if s.stopped then (.ok ([], raw :: rest), s, host)
    else
      match s.take raw host with
      | (.error e, s, host) => (.error e, s, host)
      | (.ok output, s, host) =>
        match takeLines rest s host with
        | (.error e, s, host) => (.error e, s, host)
        | (.ok (more, left), s, host) => (.ok (output ++ more, left), s, host)

structure Session where
  code : Nat
  output : Text
  unread : Text
  deriving DecidableEq, Repr

def run (input : Text) (client : Client) (host : Host) :
    Except Failure Session × Client × Host :=
  match takeLines input.inputLines { client } host with
  | (.error e, s, host) => (.error e, s.client, host)
  | (.ok (output, left), s, host) => (.ok ⟨0, output, left.flatten⟩, s.client, host)

end Shell

end Switchboard
