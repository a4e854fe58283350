/-!
# Gates and kinds of nodes

* `Gate`: the eight primitive gates, with keyword, arity and truth function.
* `Kind`: what a node does, read off its type keyword by `Kind.ofType`.
* `Gate.ofKeyword?_keyword`: every gate is read back from its keyword.
-/

namespace Schematic

/-- The primitive logic gates; `buf` repeats its input. -/
inductive Gate where
  | and
  | or
  | not
  | nand
  | nor
  | xor
  | xnor
  | buf
  deriving DecidableEq

namespace Gate

def all : List Gate := [.and, .or, .not, .nand, .nor, .xor, .xnor, .buf]

/-- The canonical keyword, in upper case. -/
def keyword : Gate → String
  | .and => "AND"
  | .or => "OR"
  | .not => "NOT"
  | .nand => "NAND"
  | .nor => "NOR"
  | .xor => "XOR"
  | .xnor => "XNOR"
  | .buf => "BUF"

/-- The gate with a keyword, in any mix of upper and lower case of ASCII letters. -/
def ofKeyword? (keyword : String) : Option Gate :=
  all.find? fun g => g.keyword.toList == keyword.toList.map Char.toUpper

/-- The number of inputs that are wired up: one for `not` and `buf`, two for all others. -/
def arity : Gate → Nat
  | .not | .buf => 1
  | _ => 2

/-- The truth function on any number of inputs; `not` and `buf` look at the first only, and a
missing first input is low. -/
def eval (inputs : List Bool) : Gate → Bool
  | .and => inputs.all id
  | .or => inputs.any id
  | .not => !inputs.headD false
  | .nand => !inputs.all id
  | .nor => !inputs.any id
  | .xor => inputs.count true % 2 == 1
  | .xnor => inputs.count true % 2 == 0
  | .buf => inputs.headD false

/-- Every gate is read back from its keyword. -/
theorem ofKeyword?_keyword (g : Gate) : ofKeyword? g.keyword = some g := by
  cases g <;> decide +kernel

end Gate

inductive Kind where
  /-- Driven from outside. -/
  | input
  /-- Copies what is wired to it. -/
  | output
  /-- Computes a truth function. -/
  | gate (gate : Gate)
  /-- Accepted in a script, but never has a value. -/
  | unknown
  deriving DecidableEq

/-- The kind that a type keyword names. `In` and `Out` are case-sensitive, gate keywords are not. -/
def Kind.ofType (type : String) : Kind :=
  if type = "In" then .input
  else if type = "Out" then .output
  else
    match Gate.ofKeyword? type with
    | some g => .gate g
    | none => .unknown

/-- The keyword of a gate, else the name of the kind. -/
def Kind.name : Kind → String
  | .input => "Input"
  | .output => "Output"
  | .gate g => g.keyword
  | .unknown => "Unknown"

end Schematic
