import Schematic.Evaluation
import Schematic.Script.Parse
import Schematic.View

/-!
# Sessions

An editor keeps a script, one switch per input and a cap. A switch survives a change of the script
as long as its input does.

* `Session.new`, `Session.setScript`, `Session.setCap`, `Session.setInput`, `Session.toggle`: the
  steps that change a session.
* `Session.evaluate`, `Session.view`: what it shows.
-/

namespace Schematic

/-- A circuit under edit with the states of its switches. -/
structure Session where
  parsed : Script.Parsed
  switches : Levels
  cap : Nat

namespace Session

def empty : Session := ⟨⟨⟨[], []⟩, []⟩, ∅, defaultCap⟩

/-- Replaces the script. The inputs that were there keep their switches, new ones are low. -/
def setScript (s : Session) (script : String) : Session :=
  let parsed := Script.parse script
  { s with
    parsed
    switches := .ofList (parsed.circuit.inputs.map fun n => (n.id, s.switches.level n.id)) }

/-- A session on a script, with the default cap. -/
def new (script : String) : Session := empty.setScript script

def setCap (s : Session) (cap : Nat) : Session := { s with cap }

/-- Sets a switch; an id that is no input is ignored. -/
def setInput (s : Session) (id : String) (level : Bool) : Session :=
  if s.switches.contains id then { s with switches := s.switches.insert id level } else s

/-- Flips a switch and tells its new state; an id that is no input is ignored. -/
def toggle (s : Session) (id : String) : Option Bool × Session :=
  match s.switches[id]? with
  | some level => (some !level, s.setInput id !level)
  | none => (none, s)

def netlist (s : Session) : Netlist := Netlist.ofCircuit s.parsed.circuit

def evaluate (s : Session) : Evaluation := s.netlist.evaluate s.cap s.switches

def view (s : Session) : View := s.netlist.view s.switches s.evaluate

end Session

end Schematic
