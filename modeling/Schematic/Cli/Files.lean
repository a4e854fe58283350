import Schematic.Text.Split

/-!
# Files

* `ReadError`: why a file cannot be read.
* `ReadError.ofMissing`: the same for a path that leads to no file.
* `Files`: how files are read, with `Files.single` for a place that holds one.
-/

namespace Schematic.Cli

/-- Why a file cannot be read. -/
inductive ReadError where
  /-- The system refuses, with a number, a name and a wording. -/
  | system (code : Nat) (kind message : String)
  /-- The bytes are no text. -/
  | notText
  deriving DecidableEq

namespace ReadError

def notFound : ReadError := .system 2 "NotFound" "No such file or directory"

def isDirectory : ReadError := .system 21 "IsADirectory" "Is a directory"

/-- The path or a name in it is longer than the system allows. -/
def nameTooLong : ReadError := .system 36 "InvalidFilename" "File name too long"

/-- The bytes that a name in a path may have. -/
def maxNameBytes : Nat := 255

/-- The bytes that a path may have. -/
def maxPathBytes : Nat := 4095

/-- Whether a name in a path leads to a directory wherever it stands. -/
def leadsToDirectory (name : List Char) : Bool := [[], ['.'], ['.', '.']].contains name

/-- Why a path that leads to no file cannot be read. The names in it are looked up from the left,
and the first one that leads nowhere decides. -/
def ofMissing (path : String) : ReadError :=
  if path.isEmpty then notFound
  else if maxPathBytes < path.utf8ByteSize then nameTooLong
  else
    match (Text.pieces (· == '/') path.toList).find? (!leadsToDirectory ·) with
    | none => isDirectory
    | some name =>
      if maxNameBytes < (String.ofList name).utf8ByteSize then nameTooLong else notFound

end ReadError

/-- How files are read. -/
abbrev Files := String → Except ReadError String

/-- One file with its content, or with the reason why that cannot be read. -/
def Files.single (path : String) (content : Except ReadError String) : Files := fun other =>
  if other = path then content else .error (.ofMissing other)

theorem Files.single_self (path : String) (content : Except ReadError String) :
    Files.single path content path = content := if_pos rfl

end Schematic.Cli
