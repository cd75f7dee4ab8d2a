import Switchboard.Registry

/-!
# Scrollback

The mouse wheel scrolls back through the output and forth to its live end. Whether it does is
decided once, when scrollback is set up.
-/

namespace Switchboard

structure Scrollback where
  enabled : Json
  offset : Nat := 0

namespace Scrollback

def linesPerNotch : Int := 3

def start (enabled : Json) (host : Host) : Scrollback × Host :=
  ({ enabled },
    host.note .debug .components
      ("Mouse support " ++ (if enabled.isTruthy then "enabled" else "disabled")))

/-- Turns the wheel, backwards for a positive number of notches, and tells whether that scrolled. -/
def wheel (notches : Int) (s : Scrollback) : Bool × Scrollback :=
  if s.enabled.isTruthy then
    (true, { s with offset := (s.offset + notches * linesPerNotch).toNat })
  else
    (false, s)

def reset (s : Scrollback) : Scrollback :=
  { s with offset := 0 }

end Scrollback

end Switchboard
