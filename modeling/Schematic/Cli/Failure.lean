import Schematic.Cli.Files
import Schematic.Text.Quoted

/-!
# Failures

* `Failure`: why a run with good options ends without a result.
* `Failure.report`: what the user reads.
-/

namespace Schematic.Cli

/-- Why a run ends without a result. -/
inductive Failure where
  /-- A strict run of a script with diagnostics. -/
  | diagnostics (count : Nat) (first : String)
  | unknownDemo (id : String)
  /-- A strict run of a circuit that does not settle. -/
  | notSettled (iterations : Nat)
  | unreadable (path : String) (cause : ReadError)
  deriving DecidableEq

/-- A record with named fields, as failures are shown. -/
def record (name : String) (fields : List (String × String)) : String :=
  name ++ " \x7b " ++ ", ".intercalate (fields.map fun (k, v) => k ++ ": " ++ v) ++ " \x7d"

def ReadError.text : ReadError → String
  | .system code kind message =>
    record "Os" [("code", toString code), ("kind", kind), ("message", Text.quoted message)]
  | .notText =>
    record "Error" [("kind", "InvalidData"),
      ("message", Text.quoted "stream did not contain valid UTF-8")]

def Failure.text : Failure → String
  | .diagnostics count first =>
    record "Diagnostics" [("count", toString count), ("first", Text.quoted first)]
  | .unknownDemo id => record "UnknownDemo" [("id", Text.quoted id)]
  | .notSettled iterations =>
    record "ConvergenceFailure" [("iterations", toString iterations)]
  | .unreadable path cause =>
    record "FileReadError" [("path", Text.quoted path), ("source", cause.text)]

/-- What the user reads. -/
def Failure.report (f : Failure) : String := "Error: " ++ f.text

end Schematic.Cli
