/-
# Failures

Everything that can end a command before it is done, with the class of the failure and its wording.
-/

import Disassembly.Directive.Stored
import Disassembly.Image
import Disassembly.Json
import Disassembly.Script.Error

namespace Disassembly

/-- Why a file cannot be read or written. -/
inductive FileError
  | notFound
  | isDirectory
  | notDirectory
  /-- The file should be text and is not. -/
  | notText
  deriving DecidableEq

/-- The class of a failure. -/
inductive FailureClass
  | notFound
  | isDirectory
  | notDirectory
  | invalidInput
  | invalidData
  | unexpectedEnd
  | other
  deriving DecidableEq

/-- The name of a class. -/
def FailureClass.name : FailureClass → String
  | notFound => "NotFound"
  | isDirectory => "IsADirectory"
  | notDirectory => "NotADirectory"
  | invalidInput => "InvalidInput"
  | invalidData => "InvalidData"
  | unexpectedEnd => "UnexpectedEof"
  | other => "Other"

namespace FileError

/-- The class of a file error. -/
def failureClass : FileError → FailureClass
  | notFound => .notFound
  | isDirectory => .isDirectory
  | notDirectory => .notDirectory
  | notText => .invalidData

/-- The number of a file error, if the system raised it, and its wording. -/
def wording : FileError → Option Nat × String
  | notFound => (some 2, "No such file or directory")
  | isDirectory => (some 21, "Is a directory")
  | notDirectory => (some 20, "Not a directory")
  | notText => (none, "stream did not contain valid UTF-8")

/-- The error in words. -/
def message (e : FileError) : String :=
  match e.wording with
  | (some code, text) => text ++ " (os error " ++ Numeral.decimal code ++ ")"
  | (none, text) => text

end FileError

/-- Why a command failed. -/
inductive Failure
  | file (error : FileError)
  | directiveFile (path : String) (error : FileError)
  | json (error : Json.Error)
  | directive (error : Directive.Malformed)
  | script (error : Script.Error)
  | window (error : OutOfBounds)
  | option (value name : String)
  | noImage
  | unknownPreset (name : String)
  | unknownProgram (name : String)

namespace Failure

/-- The class of a failure. -/
def failureClass : Failure → FailureClass
  | file e => e.failureClass
  | directiveFile _ e => e.failureClass
  | json .endOfText => .unexpectedEnd
  | json .invalid => .invalidData
  | directive _ => .invalidInput
  | script _ => .other
  | window _ => .other
  | option _ _ => .invalidInput
  | noImage => .invalidInput
  | unknownPreset _ => .invalidInput
  | unknownProgram _ => .notFound

/-- The failure in words. -/
def message : Failure → String
  | file e => e.message
  | directiveFile path e => "Cannot read " ++ path ++ ": " ++ e.message
  | json .endOfText => "the project file ends too soon"
  | json .invalid => "the project file has a mistake in it"
  | directive e => e.message
  | script e => e.message
  | window e => e.message
  | option value name => "Invalid value " ++ Text.quote value ++ " for --" ++ name
  | noImage => "Did not specify an image"
  | unknownPreset name => "There is no built-in program called " ++ name
  | unknownProgram name => "The specified program " ++ name ++ " does not exist."

/-- The failure as a command reports it: with its class, and with its number if the system raised
it. -/
def report (f : Failure) : String :=
  let custom := "Custom \x7b kind: " ++ f.failureClass.name ++ ", error: " ++ Text.quote f.message ++
    " \x7d"
  match f with
  | file e =>
    match e.wording with
    | (some code, text) =>
      "Os \x7b code: " ++ Numeral.decimal code ++ ", kind: " ++ e.failureClass.name ++
        ", message: " ++ Text.quote text ++ " \x7d"
    | (none, _) => custom
  | _ => custom

end Failure
end Disassembly
