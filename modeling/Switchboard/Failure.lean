import Switchboard.File.Error
import Switchboard.Json.Display
import Switchboard.Json.Parser

/-!
# Failures

Everything that can keep an operation from finishing, by its cause. The wording of each failure is
given once, and so is its family: callers choose by family which failures they answer for.
-/

namespace Switchboard

/-- Families of failures that a settings backend may report in its own words. -/
inductive ReportFamily
  | value
  | execution
  | lookup
  deriving DecidableEq, Repr

inductive Failure
  | file (e : FileError)
  | undecodable (e : Utf8.DecodeError)
  | unencodable (e : Utf8.EncodeError)
  | notJson (e : Json.ReadError)
  | closedFile
  | unknownSetting (id : Json)
  | notToggle (token : Json)
  | uncomparableToken (container : Json.Container)
  | notBool (id : Text) (value : Json)
  | duplicateId (id : Text)
  | settings (message : Text)
  | persistence (message : Text) (cause : Option Failure)
  | cascadeTooDeep
  | unknownLevel (name : Text)
  | notLevel (shown : Text)
  | reported (family : ReportFamily) (message : Text)

namespace Failure

def decodeFaultText : Utf8.DecodeFault → Text
  | .invalidStart => "invalid start byte"
  | .invalidContinuation => "invalid continuation byte"
  | .unexpectedEnd => "unexpected end of data"

def undecodableText (e : Utf8.DecodeError) : Text :=
  "'utf-8' codec can't decode " ++
    (if e.stop = e.start + 1 then
      "byte 0x" ++ Text.hex 2 e.first.toNat ++ " in position " ++ Text.ofNat e.start
    else
      "bytes in position " ++ Text.ofNat e.start ++ "-" ++ Text.ofNat (e.stop - 1)) ++
    ": " ++ decodeFaultText e.fault

def containerText : Json.Container → Text
  | .array => "list"
  | .object => "dict"

/-- The text of a failure. Every failure is taken to have one, also those that a backend reports: a
failure that cannot be put into words is left out. -/
def message : Failure → Text
  | file e => e.message
  | undecodable e => undecodableText e
  | unencodable e => e.message
  | notJson e => e.message
  | closedFile => "I/O operation on closed file."
  | unknownSetting id => "no such setting: " ++ id.plain
  | notToggle token => "invalid value '" ++ token.plain ++ "', expected 'on' or 'off'"
  | uncomparableToken container => "unhashable type: '" ++ containerText container ++ "'"
  | notBool id value => "Setting " ++ id ++ " expects a bool, got " ++ value.display
  | duplicateId id => "Duplicate setting identifier: " ++ id
  | settings message => message
  | persistence message _ => message
  | cascadeTooDeep => "maximum recursion depth exceeded"
  | unknownLevel name => "Unknown level: " ++ name.quoted
  | notLevel shown => "Level not an integer or a valid string: " ++ shown
  | reported .lookup message => message.quoted
  | reported _ message => message

def isFromSystem : Failure → Bool
  | file e => e.isFromSystem
  | _ => false

def isAboutValue : Failure → Bool
  | file e => !e.isFromSystem
  | undecodable _ => true
  | unencodable _ => true
  | notJson (.tooDeep _) => false
  | notJson _ => true
  | closedFile => true
  | duplicateId _ => true
  | unknownLevel _ => true
  | reported .value _ => true
  | _ => false

def isPersistence : Failure → Bool
  | persistence _ _ => true
  | _ => false

/-- Failures that the settings registry itself makes. -/
def isAboutSettings : Failure → Bool
  | unknownSetting _ => true
  | notToggle _ => true
  | settings _ => true
  | persistence _ _ => true
  | _ => false

end Failure

end Switchboard
