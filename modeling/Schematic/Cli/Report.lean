import Schematic.Cli.Options
import Schematic.Demo
import Schematic.Json.Encode
import Schematic.Script.Parse

/-!
# Reports

* `table`: an evaluation as text, one line per node and connection.
* `jsonReport`: the same with diagnostics and warnings, as JSON.
* `demoTable`: the list of demos.
-/

namespace Schematic.Cli

/-- Fills a text up to a number of characters. -/
def pad (width : Nat) (s : String) : String :=
  s ++ String.ofList (List.replicate (width - s.length) ' ')

/-- The size in bytes of the largest text. Columns are as wide, although they are filled up by
characters. -/
def widest (texts : List String) : Nat := (texts.map String.utf8ByteSize).foldl max 0

/-- A level as a digit, or a dash if it is not known. -/
def digit : Option Bool → String
  | some true => "1"
  | some false => "0"
  | none => "-"

/-- A line per node: id, type and level. -/
def nodeRows (c : Circuit) (e : Evaluation) : List String :=
  let idWidth := widest (c.nodes.map (·.id))
  let typeWidth := widest (c.nodes.map (·.type))
  c.nodes.map fun n =>
    "  " ++ pad idWidth n.id ++ "  " ++ pad typeWidth n.type ++ "  " ++ digit (e.output? n.id)

/-- A line per connection: key and level. -/
def edgeRows (c : Circuit) (e : Evaluation) : List String :=
  let width := widest (c.connections.map (·.key))
  c.connections.map fun conn => "  " ++ pad width conn.key ++ "  " ++ digit (some (e.edge conn))

def passesLine (e : Evaluation) : String :=
  if e.converged then "settled after " ++ toString e.iterations ++ " pass(es)"
  else "did not settle after " ++ toString e.iterations ++ " passes"

def unlines (lines : List String) : String := String.join (lines.map (· ++ "\n"))

def table (c : Circuit) (e : Evaluation) : String :=
  unlines (["Nodes:"] ++ nodeRows c e
    ++ (if c.connections.isEmpty then [] else "Edges:" :: edgeRows c e)
    ++ [passesLine e])

def jsonReport (p : Script.Parsed) (warnings : List Warning) (e : Evaluation) : String :=
  (Json.object ([("diagnostics", .strings p.messages),
    ("warnings", .array (warnings.map Warning.json))] ++ e.members)).pretty ++ "\n"

def report (format : Format) (p : Script.Parsed) (warnings : List Warning) (e : Evaluation) :
    String :=
  match format with
  | .text => table p.circuit e
  | .json => jsonReport p warnings e

def demoTable : String :=
  unlines (Demo.all.map fun d => pad 14 d.id ++ " " ++ pad 16 d.name ++ " " ++ d.description)

end Schematic.Cli
