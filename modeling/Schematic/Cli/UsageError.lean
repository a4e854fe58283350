import Schematic.Cli.Setting
import Schematic.Text.Terminal

/-!
# Usage errors

* `UsageError`: why a list of arguments is refused.
* `UsageError.report`: what the user reads.
-/

namespace Schematic.Cli

open Text (emphasised plain)

/-- Why arguments are refused. -/
inductive UsageError where
  /-- No setting has this name, or there is no place for one more file. -/
  | unexpectedArgument (argument : String)
  /-- A value for a setting that takes none. -/
  | unexpectedValue (value : String) (setting : Setting)
  | missingValue (setting : Setting)
  /-- A setting that may be given once was given again. -/
  | repeated (setting : Setting)
  /-- A value that the setting does not allow; the reason is not always told. -/
  | invalidValue (value : String) (setting : Setting) (reason : Option String)
  | conflict (first second : Setting)
  /-- Neither a file nor a demo nor the list of demos was asked for. -/
  | nothingToDo
  deriving DecidableEq

namespace UsageError

/-- The wording of a usage error. What the user wrote, and the settings, are set off. -/
def message : UsageError → String
  | .unexpectedArgument a => "unexpected argument '" ++ emphasised a ++ "' found"
  | .unexpectedValue v s =>
    "unexpected value '" ++ emphasised v ++ "' for '" ++ emphasised s.label
      ++ "' found; no more were expected"
  | .missingValue s =>
    "a value is required for '" ++ emphasised s.label ++ "' but none was supplied"
  | .repeated s => "the argument '" ++ emphasised s.label ++ "' cannot be used multiple times"
  | .invalidValue v s none =>
    "invalid value '" ++ emphasised v ++ "' for '" ++ emphasised s.label ++ "'"
  | .invalidValue v s (some reason) =>
    "invalid value '" ++ emphasised v ++ "' for '" ++ emphasised s.label ++ "': " ++ reason
  | .conflict a b =>
    "the argument '" ++ emphasised a.label ++ "' cannot be used with '" ++ emphasised b.label ++ "'"
  | .nothingToDo =>
    "the following required arguments were not provided:\n  " ++ emphasised Setting.script.label

/-- What the user reads, where no terminal obeys the control sequences. A sequence that an argument
leaves open ends where the next one starts. -/
def report (e : UsageError) : String :=
  plain (emphasised "error:" ++ " " ++ e.message ++ "\n\nFor more information, try '"
    ++ emphasised "--help" ++ "'.\n")

end UsageError

end Schematic.Cli
