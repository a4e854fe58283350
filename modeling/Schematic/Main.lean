import Schematic.Cli.Run

/-!
# The program

* `main`: reads the file that the arguments name, runs, and prints what the run leaves.
-/

namespace Schematic.Cli

def ReadError.ofError : IO.Error → ReadError
  | .noFileOrDirectory .. => .notFound
  | .permissionDenied .. => .system 13 "PermissionDenied" "Permission denied"
  | .inappropriateType _ 21 _ => .isDirectory
  | .inappropriateType .. => .system 20 "NotADirectory" "Not a directory"
  | .invalidArgument .. => .nameTooLong
  | e => .system 0 "Other" (toString e)

def readText (path : String) : IO (Except ReadError String) := do
  try
    match String.fromUTF8? (← IO.FS.readBinFile path) with
    | some text => return .ok text
    | none => return .error .notText
  catch e => return .error (.ofError e)

/-- The file that the arguments name. -/
def fileOf (arguments : List String) : Option String :=
  match Options.read arguments with
  | .ok o =>
    match o.action with
    | .show (.file path) => some path
    | _ => none
  | .error _ => none

end Schematic.Cli

open Schematic.Cli in
def main (arguments : List String) : IO UInt32 := do
  let content ← match fileOf arguments with
    | some path => readText path
    | none => pure (.error .notFound)
  let outcome := execute arguments (← IO.getEnv "LEVEL") fun _ => content
  IO.eprint outcome.stderr
  IO.print outcome.stdout
  return outcome.code.toUInt32
