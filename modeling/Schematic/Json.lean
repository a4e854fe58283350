/-!
# JSON

* `Json`: JSON values whose numbers are integers; the members of an object keep their order.
* `Json.compact`: the text without blanks.
* `Json.pretty`: the text with two blanks of indentation per level.
-/

namespace Schematic

inductive Json where
  | null
  | bool (value : Bool)
  | number (value : Int)
  | string (value : String)
  | array (items : List Json)
  | object (members : List (String × Json))

namespace Json

def hexDigit (n : Nat) : Char := "0123456789abcdef".toList.getD n '0'

/-- A character inside a string: quote, backslash and the characters below a space are escaped. -/
def escape (c : Char) : List Char :=
  match c with
  | '"' => ['\\', '"']
  | '\\' => ['\\', '\\']
  | '\x08' => ['\\', 'b']
  | '\x0c' => ['\\', 'f']
  | '\n' => ['\\', 'n']
  | '\r' => ['\\', 'r']
  | '\t' => ['\\', 't']
  | c =>
    if c.toNat < 0x20 then ['\\', 'u', '0', '0', hexDigit (c.toNat / 16), hexDigit (c.toNat % 16)]
    else [c]

def quote (s : String) : List Char := '"' :: (s.toList.flatMap escape ++ ['"'])

/-- Where a text breaks lines and what stands after a key. -/
structure Layout where
  /-- What stands before an item or a closing bracket at a depth. -/
  lineBreak : Nat → List Char
  colon : List Char

/-- Everything on one line, without blanks. -/
def oneLine : Layout := ⟨fun _ => [], [':']⟩

/-- One item a line, indented by two blanks per level. -/
def indented : Layout := ⟨fun depth => '\n' :: List.replicate (2 * depth) ' ', [':', ' ']⟩

variable (layout : Layout)

mutual

/-- The text of a value at a depth. -/
def chars (depth : Nat) : Json → List Char
  | .null => ['n', 'u', 'l', 'l']
  | .bool true => ['t', 'r', 'u', 'e']
  | .bool false => ['f', 'a', 'l', 's', 'e']
  | .number n => (toString n).toList
  | .string s => quote s
  | .array [] => ['[', ']']
  | .array (v :: vs) =>
    '[' :: (layout.lineBreak (depth + 1) ++ chars (depth + 1) v ++ itemsAfter depth vs)
  | .object [] => ['\x7b', '\x7d']
  | .object ((k, v) :: ms) =>
    '\x7b' :: (layout.lineBreak (depth + 1) ++ quote k ++ layout.colon ++ chars (depth + 1) v
      ++ membersAfter depth ms)

/-- The rest of an array after one of its items. -/
def itemsAfter (depth : Nat) : List Json → List Char
  | [] => layout.lineBreak depth ++ [']']
  | v :: vs => ',' :: (layout.lineBreak (depth + 1) ++ chars (depth + 1) v ++ itemsAfter depth vs)

/-- The rest of an object after one of its members. -/
def membersAfter (depth : Nat) : List (String × Json) → List Char
  | [] => layout.lineBreak depth ++ ['\x7d']
  | (k, v) :: ms =>
    ',' :: (layout.lineBreak (depth + 1) ++ quote k ++ layout.colon ++ chars (depth + 1) v
      ++ membersAfter depth ms)

end

def compact (v : Json) : String := String.ofList (chars oneLine 0 v)

def pretty (v : Json) : String := String.ofList (chars indented 0 v)

end Json

end Schematic
