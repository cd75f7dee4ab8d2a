import Switchboard.File.Path

/-!
# Directories

Where the client keeps its files: below the directories that the environment names for settings and
for caches, or else below the usual ones in the home directory. An empty choice counts as no choice,
but an empty value in the environment counts as a value.
-/

namespace Switchboard

structure Environment where
  home : Text
  configHome : Option Text := none
  cacheHome : Option Text := none
  deriving DecidableEq, Repr

namespace Environment

def dropTrailingSlashes (t : Text) : Text :=
  (t.reverse.dropWhile (· == FilePath.slash)).reverse

def underHome (e : Environment) (name : Text) : Text :=
  dropTrailingSlashes e.home ++ "/" ++ name

def applicationName : Text := "mudsettings"

def settingsDirectory (e : Environment) : FilePath :=
  (FilePath.ofText (e.configHome.getD (e.underHome ".config"))).child applicationName

def logDirectory (e : Environment) : FilePath :=
  ((FilePath.ofText (e.cacheHome.getD (e.underHome ".cache"))).child applicationName).child "logs"

def chosenOr (chosen : Option Text) (otherwise : FilePath) : FilePath :=
  match chosen with
  | none => otherwise
  | some [] => otherwise
  | some t => FilePath.ofText t

end Environment

end Switchboard
