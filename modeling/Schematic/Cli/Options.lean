import Schematic.Assignment
import Schematic.Cli.UsageError
import Schematic.Evaluation
import Schematic.Text.Numeral

/-!
# Options

The arguments of the command line are read from left to right. A value may stand in the argument of
its option, after `=`, or in the next argument. A value that stands in an argument of its own is
checked only when the next setting is given, or at the end.

* `Token.read`: the form of an argument.
* `Draft.accept`: the effect of one setting.
* `Options.read`: the options that a list of arguments asks for.
-/

namespace Schematic.Cli

inductive Format where
  | text
  | json
  deriving DecidableEq

inductive Source where
  | demo (id : String)
  | file (path : String)
  deriving DecidableEq

inductive Action where
  | listDemos
  | show (source : Source)
  deriving DecidableEq

structure Options where
  action : Action
  assignments : List Assignment
  maxIterations : Nat
  format : Format
  /-- Whether diagnostics and values that do not settle are failures. -/
  strict : Bool
  /-- Whether the canonical script is printed in place of an evaluation. -/
  fmt : Bool
  verbosity : Nat
  deriving DecidableEq

/-- Why reading arguments ends without options. -/
inductive Stop where
  | usage (error : UsageError)
  | help
  | version
  deriving DecidableEq

/-- The form of an argument. -/
inductive Token where
  /-- Everything after it is a file. -/
  | separator
  /-- A long name, with the value after an equals sign. -/
  | long (name : List Char) (value : Option (List Char))
  /-- Letters, each a setting, the last perhaps with a value. -/
  | letters (letters : List Char)
  /-- Anything else: a value or a file. -/
  | plain
  deriving DecidableEq

/-- The form of an argument. A single dash is no option. -/
def Token.read : List Char → Token
  | ['-', '-'] => .separator
  | '-' :: '-' :: r =>
    match Text.cut ['='] r with
    | some (name, value) => .long name (some value)
    | none => .long r none
  | '-' :: c :: r => .letters (c :: r)
  | _ => .plain

/-- The settings accepted so far. -/
structure Draft where
  script : Option String
  demo : Option String
  listDemos : Bool
  assignments : List Assignment
  maxIterations : Nat
  format : Format
  strict : Bool
  fmt : Bool
  verbosity : Nat
  /-- Which settings were given, in order. -/
  given : List Setting

namespace Draft

def empty : Draft := ⟨none, none, false, [], defaultCap, .text, false, false, 0, []⟩

/-- One more than the largest cap. -/
def capLimit : Nat := UInt64.size

/-- The effect of a setting with a value. -/
def take (d : Draft) (s : Setting) (value : String) : Except UsageError Draft :=
  match s with
  | .script =>
    if value.isEmpty then .error (.missingValue s) else .ok { d with script := some value }
  | .demo => .ok { d with demo := some value }
  | .set =>
    match Assignment.read value with
    | .ok a => .ok { d with assignments := d.assignments ++ [a] }
    | .error e => .error (.invalidValue value s (some e.message))
  | .maxIterations =>
    match Text.natural capLimit value.toList with
    | .ok n => .ok { d with maxIterations := n }
    | .error e => .error (.invalidValue value s (some e.message))
  | .format =>
    match value with
    | "" => .error (.missingValue s)
    | "text" => .ok { d with format := .text }
    | "json" => .ok { d with format := .json }
    | _ => .error (.invalidValue value s none)
  | _ => .ok d

/-- The effect of a setting without a value. -/
def raise (d : Draft) : Setting → Draft
  | .listDemos => { d with listDemos := true }
  | .strict => { d with strict := true }
  | .fmt => { d with fmt := true }
  | .verbose => { d with verbosity := d.verbosity + 1 }
  | _ => d

/-- **The effect of one setting.** A missing value is reported before a repetition, and a repetition
before a wrong value. -/
def accept (d : Draft) (s : Setting) (value : Option String) : Except Stop Draft := do
  if s = .help then throw .help
  if s = .version then throw .version
  if s.takesValue && value.isNone then throw (.usage (.missingValue s))
  if !s.repeats && d.given.contains s then throw (.usage (.repeated s))
  let d := { d with given := d.given ++ [s] }
  match value with
  | some v => (d.take s v).mapError .usage
  | none => return d.raise s

/-- The options, if the settings go together and say what to do. -/
def finish (d : Draft) : Except Stop Options := do
  let options (action : Action) : Options :=
    ⟨action, d.assignments, d.maxIterations, d.format, d.strict, d.fmt, d.verbosity⟩
  match d.given.filter fun s => s = .script || s = .demo with
  | first :: second :: _ => throw (.usage (.conflict first second))
  | _ =>
    match d.listDemos, d.demo, d.script with
    | true, _, _ => return options .listDemos
    | false, some id, _ => return options (.show (.demo id))
    | false, none, some path => return options (.show (.file path))
    | false, none, none => throw (.usage .nothingToDo)

end Draft

/-- Where reading stands between two arguments. -/
structure Reader where
  draft : Draft
  /-- A setting whose value is not checked yet, or still to come. -/
  pending : Option (Setting × Option String)
  /-- Whether the separator was seen. -/
  filesOnly : Bool
  /-- Whether the place of the file is taken. -/
  fileSeen : Bool

namespace Reader

def start : Reader := ⟨.empty, none, false, false⟩

def settle (r : Reader) : Except Stop Reader :=
  match r.pending with
  | none => .ok r
  | some (s, value) => return { r with draft := ← r.draft.accept s value, pending := none }

/-- Accepts a setting after the pending one. -/
def give (r : Reader) (s : Setting) (value : Option String) : Except Stop Reader := do
  let r ← r.settle
  return { r with draft := ← r.draft.accept s value }

/-- Makes a setting wait for the next argument, after the pending one is accepted. -/
def await (r : Reader) (s : Setting) : Except Stop Reader := do
  let r ← r.settle
  return { r with pending := some (s, none) }

/-- Reads letters. One that takes a value takes all that follows it, but for an equals sign. -/
def letters : List Char → Reader → Except Stop Reader
  | [], r => .ok r
  | c :: cs, r =>
    match Setting.ofLetter? c with
    | none => .error (.usage (.unexpectedArgument (String.ofList ['-', c])))
    | some s =>
      if s.takesValue then
        match cs with
        | [] => r.await s
        | '=' :: value => r.give s (some (String.ofList value))
        | value => r.give s (some (String.ofList value))
      else do letters cs (← r.give s none)

def long (r : Reader) (name : List Char) (value : Option (List Char)) : Except Stop Reader :=
  match Setting.ofName? (String.ofList name) with
  | none => .error (.usage (.unexpectedArgument (String.ofList ('-' :: '-' :: name))))
  | some s =>
    match s.takesValue, value with
    | true, none => r.await s
    | true, some v => r.give s (some (String.ofList v))
    | false, none => r.give s none
    | false, some v => .error (.usage (.unexpectedValue (String.ofList v) s))

def file (r : Reader) (path : String) : Except Stop Reader :=
  if r.fileSeen then .error (.usage (.unexpectedArgument path))
  else do
    let r ← r.settle
    return { r with pending := some (.script, some path), fileSeen := true }

/-- Reads an argument that is no option: the value of a setting that waits for one, or a file. -/
def plain (r : Reader) (argument : String) : Except Stop Reader :=
  match r.pending with
  | some (s, none) => .ok { r with pending := some (s, some argument) }
  | _ => r.file argument

def argument (r : Reader) (a : String) : Except Stop Reader :=
  if r.filesOnly then r.file a
  else
    match Token.read a.toList with
    | .separator => .ok { r with filesOnly := true }
    | .long name value => r.long name value
    | .letters cs => letters cs r
    | .plain => r.plain a

end Reader

/-- **The options that arguments ask for.** -/
def Options.read (arguments : List String) : Except Stop Options := do
  let r ← arguments.foldlM Reader.argument Reader.start
  let r ← r.settle
  r.draft.finish

end Schematic.Cli
