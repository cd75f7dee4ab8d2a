import Switchboard.Diagnostics
import Switchboard.Shell

/-!
# Launching

A launch sets up diagnostics, starts a client in the directories that the environment decides on,
runs the shell on the input, and shuts the client down. What the parts log reaches the sinks in
between or at the end, but always in the order in which it was logged.
-/

namespace Switchboard.Launch

def version : Text := "0.9.0"

def rule : Text := List.replicate 60 (CodePoint.ofChar '=')

def greeting : List Text :=
  [rule, "mudsettings v" ++ version ++ " starting...", rule]

def farewell : Text := "mudsettings exiting"

def announce (name : Text) (messages : List Text) (host : Host) : Host :=
  messages.foldl (fun host message => host.note .info (.named name) message) host

def enter (name : Text) (environment : Environment) (host : Host) : Except Failure Shell × Host :=
  match
    Client.start environment.settingsDirectory environment.logDirectory none
      (announce name greeting host) with
  | (.error e, host) => (.error e, host)
  | (.ok client, host) => (.ok { client }, host)

/-- Shuts the client down, also when the shell has failed, and says farewell when all went well. A
failure to shut down is the one that counts. -/
def leave {α : Type} (name : Text) (result : Except Failure α) (client : Client) (host : Host) :
    Except Failure α × Host :=
  match client.shutdown host, result with
  | (.error e, _, host), _ => (.error e, host)
  | (.ok (), _, host), .error e => (.error e, host)
  | (.ok (), _, host), .ok outcome => (.ok outcome, announce name [farewell] host)

def session (name : Text) (environment : Environment) (input : Text) (host : Host) :
    Except Failure Shell.Session × Host :=
  match enter name environment host with
  | (.error e, host) => (.error e, host)
  | (.ok shell, host) =>
    let (result, client, host) := Shell.run input shell.client host
    leave name result client host

def deliver (d : Diagnostics) (host : Host) : Diagnostics × Host :=
  d.logLines host.log { host with log := [] }

/-- A whole launch. The log lines of the session go to the sinks that the set-up opened. -/
def run (name : Text) (environment : Environment) (input : Text) (d : Diagnostics) (host : Host) :
    Except Failure Shell.Session × Diagnostics × Host :=
  match d.setUp "INFO" (some environment.logDirectory) host with
  | (.error e, d, host) => (.error e, d, host)
  | (.ok (), d, host) =>
    let (result, host) := session name environment input host
    let (d, host) := deliver d host
    (result, d, host)

end Switchboard.Launch
