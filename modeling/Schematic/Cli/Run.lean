import Schematic.Cli.Failure
import Schematic.Cli.Log
import Schematic.Cli.Report
import Schematic.Script.Print

/-!
# Runs

* `run`: what a run with given options leaves.
* `execute`: what a run with given arguments leaves.
-/

namespace Schematic.Cli

/-- What a run leaves: an exit code and two texts. -/
structure Outcome where
  code : Nat
  stdout : String
  stderr : String
  deriving DecidableEq

/-- A run that ends well, after some messages. -/
def Outcome.done (messages : List String) (stdout : String) : Outcome := ⟨0, stdout, unlines messages⟩

/-- A run that fails, after some messages. -/
def Outcome.failed (messages : List String) (f : Failure) : Outcome :=
  ⟨1, "", unlines (messages ++ [f.report])⟩

def Source.script (files : Files) : Source → Except Failure String
  | .demo id =>
    match Demo.find? id with
    | some d => .ok d.script
    | none => .error (.unknownDemo id)
  | .file path => (files path).mapError (.unreadable path)

/-- The messages about what was read: two log entries, and the diagnostics. -/
def openingMessages (log : Level) (p : Script.Parsed) : List String :=
  let nodes := toString p.circuit.nodes.length
  let connections := toString p.circuit.connections.length
  log.lines
      [⟨.debug, .parser, "parsed " ++ nodes ++ " nodes, " ++ connections ++ " connections, "
        ++ toString p.diagnostics.length ++ " diagnostics"⟩,
       ⟨.info, .command, "loaded " ++ nodes ++ " nodes and " ++ connections ++ " connections"⟩]
    ++ p.messages

/-- The levels of several assignments; the last one for an id counts. -/
def levelsOf (assignments : List Assignment) : Levels :=
  .ofList (assignments.map fun a => (a.id, a.level))

/-- The messages about the circuit: its warnings, and assignments to ids that are no inputs. -/
def warningMessages (log : Level) (c : Circuit) (warnings : List Warning) (inputs : Levels) :
    List String :=
  let ids := c.inputs.map (·.id)
  let ignored := inputs.toList.filter fun (id, _) => !ids.contains id
  log.lines (warnings.map (fun w => ⟨.warn, .command, w.message⟩)
    ++ ignored.map fun (id, _) => ⟨.warn, .command,
      "'" ++ id ++ "' is not an input of this circuit; assignment ignored"⟩)

/-- The entry on each pass of a relaxation. -/
def passEntries (changes : List Nat) : List Entry :=
  (changes.zipIdx 1).map fun (n, i) => ⟨.trace, .relaxation,
    "relaxation pass " ++ toString i ++ ": " ++ toString n ++ " change(s)"⟩

def settleEntry (e : Evaluation) : Entry := ⟨.debug, .evaluator,
  if e.converged then "circuit settled after " ++ toString e.iterations ++ " pass(es)"
  else "circuit still changing after " ++ toString e.iterations
    ++ " passes, returning partial values"⟩

/-- The messages about an evaluation. The passes are counted only for those who read of them. -/
def evaluationMessages (log : Level) (n : Netlist) (cap : Nat) (inputs : Levels) (e : Evaluation) :
    List String :=
  let passes :=
    if log = .trace then passEntries (changeCounts n.elements cap (n.seed inputs)).toList else []
  log.lines (passes ++ [settleEntry e])

def runEvaluation (o : Options) (log : Level) (messages : List String) (p : Script.Parsed) :
    Outcome :=
  let n := Netlist.ofCircuit p.circuit
  let inputs := levelsOf o.assignments
  let warnings := n.warnings
  let e := n.evaluate o.maxIterations inputs
  let messages := messages ++ warningMessages log p.circuit warnings inputs
    ++ evaluationMessages log n o.maxIterations inputs e
  if o.strict && !e.converged then .failed messages (.notSettled e.iterations)
  else .done messages (report o.format p warnings e)

def runScript (o : Options) (log : Level) (script : String) : Outcome :=
  let p := Script.parse script
  let messages := openingMessages log p
  match o.strict, p.diagnostics with
  | true, d :: ds => .failed messages (.diagnostics (ds.length + 1) d.message)
  | _, _ => if o.fmt then .done messages p.circuit.script else runEvaluation o log messages p

/-- **What a run with given options leaves.** -/
def run (o : Options) (log : Level) (files : Files) : Outcome :=
  match o.action with
  | .listDemos => .done [] demoTable
  | .show source =>
    match source.script files with
    | .error f => .failed [] f
    | .ok script => runScript o log script

def versionText : String := "billyprints_core 0.1.0\n"

/-- A line of the help text about a setting. -/
def helpRow (setting about : String) : String := "  " ++ pad 39 setting ++ about

def helpText : String := unlines [
  "Combinational logic circuit evaluator",
  "",
  "Usage: billyprints [OPTIONS] [SCRIPT_FILE]",
  "",
  "Arguments:",
  "  [SCRIPT_FILE]  Path to the circuit script",
  "",
  "Options:",
  helpRow "    --demo <ID>" "Evaluate a built-in demo circuit instead of a file",
  helpRow "    --list-demos" "List the built-in demo circuits and exit",
  helpRow "-s, --set <ID=VALUE>"
    "Drive an input, e.g. `--set A=1` (repeatable; unset inputs are low)",
  helpRow "    --max-iterations <MAX_ITERATIONS>" "Maximum relaxation passes [default: 100]",
  helpRow "    --format <FORMAT>" "Output format [default: text] [possible values: text, json]",
  helpRow "    --strict" "Fail on parse diagnostics or if the circuit does not settle",
  helpRow "    --fmt" "Print the circuit as canonical script text instead of evaluating it",
  helpRow "-v, --verbose..." "Increase log verbosity (-v info, -vv debug, -vvv trace)",
  helpRow "-h, --help" "Print help",
  helpRow "-V, --version" "Print version"]

/-- **What a run with given arguments leaves**, with a name for the log level. -/
def execute (arguments : List String) (levelName : Option String) (files : Files) : Outcome :=
  match Options.read arguments with
  | .ok o => run o (Level.choose levelName o.verbosity) files
  | .error (.usage e) => ⟨2, "", e.report⟩
  | .error .help => .done [] helpText
  | .error .version => .done [] versionText

end Schematic.Cli
