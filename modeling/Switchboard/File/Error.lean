import Switchboard.File.Path
import Switchboard.Text.Numeral
import Switchboard.Text.Quoted

/-!
# Refusals of the file system

A refusal names its cause and the path it is about; its wording carries the number by which systems
know the cause. A path that the system cannot be given is refused before the system is asked.
-/

namespace Switchboard

def Utf8.EncodeError.message (e : Utf8.EncodeError) : Text :=
  "'utf-8' codec can't encode " ++
    (if e.stop = e.start + 1 then
      "character '\\u" ++ Text.hex 4 e.first.val ++ "' in position " ++ Text.ofNat e.start
    else
      "characters in position " ++ Text.ofNat e.start ++ "-" ++ Text.ofNat (e.stop - 1)) ++
    ": surrogates not allowed"

inductive FileError
  | embeddedNul
  | unencodable (e : Utf8.EncodeError)
  | notFound (path : FilePath)
  | alreadyExists (path : FilePath)
  | notDirectory (path : FilePath)
  | isDirectory (path : FilePath)
  | nameTooLong (path : FilePath)
  /-- A temporary file in a directory was to take the place of another directory. The temporary file
  is known by its direct path. -/
  | replacesDirectory (directory target : FilePath)
  /-- A device fails in its own words. -/
  | device (message : Text)
  deriving DecidableEq, Repr

namespace FileError

def isFromSystem : FileError → Bool
  | embeddedNul => false
  | unencodable _ => false
  | _ => true

def numbered (number : Nat) (cause : Text) (path : FilePath) : Text :=
  "[Errno " ++ Text.ofNat number ++ "] " ++ cause ++ ": " ++ path.toText.quoted

/-- What messages show for the name of a temporary settings file. -/
def temporaryName : Text := ".settings-*.json"

def message : FileError → Text
  | embeddedNul => "embedded null byte"
  | unencodable e => e.message
  | notFound path => numbered 2 "No such file or directory" path
  | alreadyExists path => numbered 17 "File exists" path
  | notDirectory path => numbered 20 "Not a directory" path
  | isDirectory path => numbered 21 "Is a directory" path
  | nameTooLong path => numbered 36 "File name too long" path
  | replacesDirectory directory target =>
    numbered 21 "Is a directory" (directory.direct.child temporaryName) ++ " -> " ++
      target.toText.quoted
  | device message => message

end FileError

/-- The refusal of a path that the system cannot be given. Surrogates are found before the code
point zero is. -/
def FilePath.refusal (p : FilePath) : FileError :=
  match Utf8.nameFault? 0 p.toText with
  | some e => .unencodable e
  | none => .embeddedNul

@[simp] theorem FilePath.isFromSystem_refusal (p : FilePath) : p.refusal.isFromSystem = false := by
  rw [refusal]
  split
  · rfl
  · rfl

end Switchboard
