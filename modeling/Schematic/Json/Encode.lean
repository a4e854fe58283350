import Schematic.Json
import Schematic.Session
import Schematic.Warning

/-!
# The JSON forms of evaluations, views and warnings

* `Evaluation.json`, `View.json`, `Warning.json`: the members of each object in their fixed order.
* `Session.diagnosticsText`, `Session.evaluationText`, `Session.viewText`: what a session hands to
  an editor.
-/

namespace Schematic

namespace Json

def strings (l : List String) : Json := .array (l.map .string)

/-- A level, or null if it is not known. -/
def level : Option Bool → Json
  | none => .null
  | some b => .bool b

/-- A table of levels, sorted by key. -/
def levels (l : Levels) : Json := .object (l.toList.map fun (k, v) => (k, .bool v))

end Json

def Evaluation.members (e : Evaluation) : List (String × Json) :=
  [("nodeOutputs", .levels e.nodeOutputs), ("edgeStates", .levels e.edgeStates),
   ("iterations", .number e.iterations), ("converged", .bool e.converged)]

def Evaluation.json (e : Evaluation) : Json := .object e.members

/-- A widget, tagged by its type. -/
def Widget.json : Widget → Json
  | .input label value =>
    .object [("type", .string "inputNode"), ("label", .string label), ("value", .bool value)]
  | .output label value =>
    .object [("type", .string "outputNode"), ("label", .string label), ("value", .level value)]
  | .unary label a y =>
    .object [("type", .string "notGateNode"), ("label", .string label), ("input", .level a),
      ("output", .level y)]
  | .binary label a b y =>
    .object [("type", .string "gateNode"), ("label", .string label), ("inputA", .level a),
      ("inputB", .level b), ("output", .level y)]

def ViewNode.json (n : ViewNode) : Json :=
  .object [("id", .string n.id), ("position", .object [("x", .number n.x), ("y", .number n.y)]),
    ("data", n.widget.json)]

def ViewEdge.json (e : ViewEdge) : Json :=
  .object [("id", .string e.connection.key),
    ("source", .string e.connection.source.node),
    ("sourceHandle", .string e.connection.source.slot),
    ("target", .string e.connection.target.node),
    ("targetHandle", .string e.connection.target.slot),
    ("active", .bool e.active)]

def View.json (v : View) : Json :=
  .object [("nodes", .array (v.nodes.map ViewNode.json)),
    ("edges", .array (v.edges.map ViewEdge.json))]

/-- A warning, tagged by its kind. -/
def Warning.json : Warning → Json
  | .duplicateId id count =>
    .object [("kind", .string "duplicate_node_id"), ("id", .string id), ("count", .number count)]
  | .unknownSource key => .object [("kind", .string "unknown_source"), ("connection", .string key)]
  | .unknownTarget key => .object [("kind", .string "unknown_target"), ("connection", .string key)]
  | .unknownType id type =>
    .object [("kind", .string "unknown_node_type"), ("id", .string id), ("node_type", .string type)]
  | .unwiredInput id slots =>
    .object [("kind", .string "unwired_input"), ("id", .string id), ("slots", .strings slots)]
  | .feedbackLoop ids => .object [("kind", .string "feedback_loop"), ("nodes", .strings ids)]

namespace Session

def diagnosticsText (s : Session) : String := (Json.strings s.parsed.messages).compact

def evaluationText (s : Session) : String := s.evaluate.json.compact

def viewText (s : Session) : String := s.view.json.compact

end Session

end Schematic
