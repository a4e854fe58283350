/-!
# Log

* `Level`: how much is logged, read from a name or from the number of `-v`.
* `Entry.line`: a log line.
* `Level.lines`: the lines of the entries that a level lets through.
-/

namespace Schematic.Cli

/-- The importance of a log entry, and the least importance that is logged. -/
inductive Level where
  | warn
  | info
  | debug
  | trace
  deriving DecidableEq

namespace Level

def name : Level → String
  | .warn => "WARN"
  | .info => "INFO"
  | .debug => "DEBUG"
  | .trace => "TRACE"

/-- Rises with the amount that is logged. -/
def rank : Level → Nat
  | .warn => 0
  | .info => 1
  | .debug => 2
  | .trace => 3

/-- The capital of a letter, as far as it is a letter in the name of a level: besides the ASCII
letters, only the dotless i has one. -/
def capital (c : Char) : Char := if c = '\u0131' then 'I' else c.toUpper

/-- The level with a name, in any case of letters. There is no name for `warn`. -/
def ofName? (name : String) : Option Level :=
  [Level.trace, .debug, .info].find? fun l => l.name.toList == name.toList.map capital

/-- The level for a number of `-v`. -/
def ofVerbosity : Nat → Level
  | 0 => .warn
  | 1 => .info
  | 2 => .debug
  | _ => .trace

/-- The level that is asked for; a name goes before the number of `-v`. -/
def choose (name : Option String) (verbosity : Nat) : Level :=
  (name.bind ofName?).getD (ofVerbosity verbosity)

end Level

/-- The part of the program that logs. -/
inductive Target where
  | command
  | parser
  | relaxation
  | evaluator
  deriving DecidableEq

def Target.name : Target → String
  | .command => "billyprints"
  | .parser => "billyprints_core::dsl::parser"
  | .relaxation => "billyprints_core::solver::relax"
  | .evaluator => "billyprints_core::solver::evaluator"

structure Entry where
  level : Level
  target : Target
  message : String
  deriving DecidableEq

def Entry.line (e : Entry) : String :=
  "[" ++ e.level.name ++ " " ++ e.target.name ++ "] " ++ e.message

/-- The lines of the entries that a level lets through. -/
def Level.lines (l : Level) (entries : List Entry) : List String :=
  (entries.filter fun e => e.level.rank ≤ l.rank).map Entry.line

end Schematic.Cli
