import Schematic.Text.Split

/-!
# Lines of a script

A script is read line by line. A line is sorted by the first marker that it holds: `//` in front,
then `->` anywhere, then `@` anywhere.

* `Line.classify`: the sort of a raw line.
* `lines`: the raw lines of a script, without a byte-order mark in front of the first.
-/

namespace Schematic.Script

/-- The sort of a line. The halves around a marker have no blanks at their ends. -/
inductive Line where
  /-- Nothing, or a comment. -/
  | blank
  /-- What stands before and after the first arrow. -/
  | connection (left right : List Char)
  /-- What stands before and after the first `@`. -/
  | node (head tail : List Char)
  /-- Anything else; skipped silently. -/
  | other
  deriving DecidableEq

/-- The marker of a connection. -/
def arrow : List Char := ['-', '>']

def atSign : List Char := ['@']

/-- The marker of a comment. -/
def slashes : List Char := ['/', '/']

/-- The sort of a raw line. An arrow takes priority over an `@`. -/
def Line.classify (raw : List Char) : Line :=
  let line := Text.trim raw
  if line.isEmpty || slashes.isPrefixOf line then .blank
  else
    match Text.cut arrow line with
    | some (left, right) => .connection (Text.trim left) (Text.trim right)
    | none =>
      match Text.cut atSign line with
      | some (head, tail) => .node (Text.trim head) (Text.trim tail)
      | none => .other

/-- The mark that a file may start with and that is not part of its text. -/
def byteOrderMark : Char := '\uFEFF'

/-- Drops one byte-order mark in front. -/
def dropMark : List Char → List Char
  | [] => []
  | c :: r => if c = byteOrderMark then r else c :: r

/-- The raw lines of a script; only a line feed ends a line. -/
def lines (script : String) : List (List Char) :=
  Text.pieces (· == '\n') (dropMark script.toList)

end Schematic.Script
