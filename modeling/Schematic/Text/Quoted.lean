import Schematic.Text.Hidden

/-!
# Quoted texts

* `quoted`: a text between double quotes, with escapes for what would not show.
-/

namespace Schematic.Text

/-- A character between quotes. Quote, backslash and the common controls have short escapes, other
hidden characters are written as their number in hexadecimal. -/
def quotedChar (c : Char) : List Char :=
  match c with
  | '"' => ['\\', '"']
  | '\\' => ['\\', '\\']
  | '\n' => ['\\', 'n']
  | '\r' => ['\\', 'r']
  | '\t' => ['\\', 't']
  | '\x00' => ['\\', '0']
  | c => if isHidden c then '\\' :: 'u' :: '\x7b' :: (Nat.toDigits 16 c.toNat ++ ['\x7d']) else [c]

def quoted (s : String) : String := String.ofList ('"' :: (s.toList.flatMap quotedChar ++ ['"']))

end Schematic.Text
