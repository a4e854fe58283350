/-!
# Settings of the command line

* `Setting`: everything that an argument can set.
* `Setting.label`: the name of a setting in messages.
* `Setting.ofName?`, `Setting.ofLetter?`: the setting that a long or a short option names.
-/

namespace Schematic.Cli

/-- What an argument sets. -/
inductive Setting where
  | script
  | demo
  | listDemos
  | set
  | maxIterations
  | format
  | strict
  | fmt
  | verbose
  | help
  | version
  deriving DecidableEq

namespace Setting

def label : Setting → String
  | .script => "[SCRIPT_FILE]"
  | .demo => "--demo <ID>"
  | .listDemos => "--list-demos"
  | .set => "--set <ID=VALUE>"
  | .maxIterations => "--max-iterations <MAX_ITERATIONS>"
  | .format => "--format <FORMAT>"
  | .strict => "--strict"
  | .fmt => "--fmt"
  | .verbose => "--verbose..."
  | .help => "--help"
  | .version => "--version"

def takesValue : Setting → Bool
  | .script | .demo | .set | .maxIterations | .format => true
  | _ => false

def repeats : Setting → Bool
  | .set | .verbose => true
  | _ => false

def ofName? (name : String) : Option Setting :=
  match name with
  | "demo" => some .demo
  | "list-demos" => some .listDemos
  | "set" => some .set
  | "max-iterations" => some .maxIterations
  | "format" => some .format
  | "strict" => some .strict
  | "fmt" => some .fmt
  | "verbose" => some .verbose
  | "help" => some .help
  | "version" => some .version
  | _ => none

def ofLetter? : Char → Option Setting
  | 's' => some .set
  | 'v' => some .verbose
  | 'h' => some .help
  | 'V' => some .version
  | _ => none

end Setting

end Schematic.Cli
