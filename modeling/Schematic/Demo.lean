/-!
# Demo circuits

* `Demo.all`: small classic circuits, in menu order.
* `Demo.find?`: the demo with an id.
-/

namespace Schematic

structure Demo where
  id : String
  name : String
  description : String
  script : String
  deriving DecidableEq

namespace Demo

/-- Adds two bits. -/
def halfAdder : Demo where
  id := "half-adder"
  name := "Half Adder"
  description := "Adds two bits. XOR=Sum, AND=Carry."
  script := "\n".intercalate [
    "// Half Adder",
    "In A @ 60, 40",
    "In B @ 60, 180",
    "",
    "XOR xor1 @ 280, 20",
    "AND and1 @ 280, 160",
    "",
    "Out Sum @ 480, 80",
    "Out Carry @ 480, 220",
    "",
    "A -> xor1.a",
    "B -> xor1.b",
    "A -> and1.a",
    "B -> and1.b",
    "xor1 -> Sum",
    "and1 -> Carry",
    "",
    "",
    "// Try Editing..."]

/-- Adds two bits and a carry. -/
def fullAdder : Demo where
  id := "full-adder"
  name := "Full Adder"
  description := "Adds 3 bits with carry. Core of ALU."
  script := "\n".intercalate [
    "// Full Adder",
    "In A @ 40, 0",
    "In B @ 40, 120",
    "In Cin @ 40, 260",
    "",
    "XOR xor1 @ 200, 0",
    "XOR xor2 @ 380, 40",
    "AND and1 @ 200, 160",
    "AND and2 @ 380, 200",
    "OR or1 @ 540, 180",
    "",
    "Out Sum @ 560, 40",
    "Out Cout @ 720, 240",
    "",
    "A -> xor1.a",
    "B -> xor1.b",
    "xor1 -> xor2.a",
    "Cin -> xor2.b",
    "xor2 -> Sum",
    "",
    "A -> and1.a",
    "B -> and1.b",
    "xor1 -> and2.a",
    "Cin -> and2.b",
    "and1 -> or1.a",
    "and2 -> or1.b",
    "or1 -> Cout",
    "",
    "// Try Editing..."]

/-- Selects one of two inputs. -/
def multiplexer : Demo where
  id := "mux-2to1"
  name := "2:1 Multiplexer"
  description := "S=0 outputs D0, S=1 outputs D1."
  script := "\n".intercalate [
    "// 2:1 Multiplexer",
    "In D0 @ 40, 20",
    "In D1 @ 40, 140",
    "In S @ 40, 280",
    "",
    "NOT not1 @ 180, 240",
    "AND and1 @ 320, 20",
    "AND and2 @ 320, 160",
    "OR or1 @ 480, 90",
    "",
    "Out Y @ 660, 150",
    "",
    "S -> not1",
    "D0 -> and1.a",
    "not1 -> and1.b",
    "D1 -> and2.a",
    "S -> and2.b",
    "  and1 -> or1.a",
    "and2 -> or1.b",
    "or1 -> Y",
    "",
    "// Try Editing..."]

/-- Selects one of two operations. -/
def miniCpu : Demo where
  id := "mini-cpu"
  name := "Mini CPU"
  description := "A 1-bit ALU and control unit simulation."
  script := "\n".intercalate [
    "// 1-bit Mini CPU",
    "In OpA @ 40, 40",
    "In OpB @ 40, 140",
    "In Ctrl @ 40, 280",
    "",
    "AND and_gate @ 220, 20",
    "XOR xor_gate @ 220, 120",
    "NOT ctrl_inv @ 220, 240",
    "",
    "AND sel1 @ 400, 60",
    "AND sel2 @ 400, 180",
    "OR final_out @ 580, 120",
    "",
    "Out Result @ 760, 140",
    "",
    "OpA -> and_gate.a",
    "OpB -> and_gate.b",
    "OpA -> xor_gate.a",
    "OpB -> xor_gate.b",
    "",
    "and_gate -> sel1.a",
    "Ctrl -> sel1.b",
    "",
    "xor_gate -> sel2.a",
    "ctrl_inv -> sel2.b",
    "Ctrl -> ctrl_inv",
    "",
    "sel1 -> final_out.a",
    "sel2 -> final_out.b",
    "final_out -> Result",
    "",
    "// Try Editing..."]

/-- Raises one of four outputs. -/
def decoder : Demo where
  id := "decoder-2to4"
  name := "2:4 Decoder"
  description := "Binary to one-hot decoder."
  script := "\n".intercalate [
    "// 2-to-4 Decoder",
    "In A0 @ 40, 80",
    "In A1 @ 40, 240",
    "",
    "NOT n0 @ 180, 40",
    "NOT n1 @ 180, 200",
    "AND y0 @ 340, 0",
    "AND y1 @ 340, 100",
    "AND y2 @ 340, 200",
    "AND y3 @ 340, 300",
    "",
    "Out Y0 @ 520, 60",
    "Out Y1 @ 520, 160",
    "Out Y2 @ 520, 260",
    "Out Y3 @ 520, 360",
    "",
    "A0 -> n0",
    "A1 -> n1",
    "n0 -> y0.a",
    "n1 -> y0.b",
    "A0 -> y1.a",
    "n1 -> y1.b",
    "n0 -> y2.a",
    "A1 -> y2.b",
    "A0 -> y3.a",
    "A1 -> y3.b",
    "y0 -> Y0",
    "y1 -> Y1",
    "y2 -> Y2",
    "y3 -> Y3",
    "",
    "// Try Editing..."]

def all : List Demo := [halfAdder, fullAdder, multiplexer, miniCpu, decoder]

def find? (id : String) : Option Demo := all.find? (·.id == id)

/-- No demo circuit has an id. -/
structure Unknown where
  id : String
  deriving DecidableEq

def Unknown.message (e : Unknown) : String := "Unknown demo circuit '" ++ e.id ++ "'"

def find (id : String) : Except Unknown Demo :=
  match find? id with
  | some d => .ok d
  | none => .error ⟨id⟩

end Demo

end Schematic
