import Reflection.Json
import Reflection.Text.Quoted
/-!
# Writing JSON

A JSON value as text over several lines, two spaces deeper for each level. An empty array or object
stands on one line. Of a string only quotes, backslashes and control characters are escaped.
-/

namespace Reflection.Json

/-- How a character is written in a string. -/
def escapeChar (c : Char) : List Char :=
  if c = '"' || c = '\\' then ['\\', c]
  else if c = '\x08' then ['\\', 'b']
  else if c = '\t' then ['\\', 't']
  else if c = '\n' then ['\\', 'n']
  else if c = '\x0c' then ['\\', 'f']
  else if c = '\r' then ['\\', 'r']
  else if c.toNat < 0x10 then ['\\', 'u', '0', '0', '0'] ++ Text.hexDigits c.toNat
  else if c.toNat < 0x20 then ['\\', 'u', '0', '0'] ++ Text.hexDigits c.toNat
  else [c]

/-- A string in quotes. What is no text is written empty. -/
def quote (s : Option String) : List Char :=
  '"' :: (s.getD "").toList.flatMap escapeChar ++ ['"']

/-- A line end and the spaces in front of the next line. -/
def newLine (depth : Nat) : List Char :=
  '\n' :: List.replicate (2 * depth) ' '

mutual
/-- The text of a value that stands `depth` levels deep. -/
def write (depth : Nat) : Json → List Char
  | .null => ['n', 'u', 'l', 'l']
  | .bool true => ['t', 'r', 'u', 'e']
  | .bool false => ['f', 'a', 'l', 's', 'e']
  | .integer i => (toString i).toList
  | .real => ['0', '.', '0']
  | .string s => quote s
  | .array [] => ['[', ']']
  | .array (item :: items) =>
    '[' :: newLine (depth + 1) ++ write (depth + 1) item ++ writeItems (depth + 1) items
      ++ newLine depth ++ [']']
  | .object [] => ['\x7b', '\x7d']
  | .object ((name, value) :: members) =>
    '\x7b' :: newLine (depth + 1) ++ quote name ++ [':', ' '] ++ write (depth + 1) value
      ++ writeMembers (depth + 1) members ++ newLine depth ++ ['\x7d']

/-- The further items of an array. -/
def writeItems (depth : Nat) : List Json → List Char
  | [] => []
  | item :: items => ',' :: newLine depth ++ write depth item ++ writeItems depth items

/-- The further members of an object. -/
def writeMembers (depth : Nat) : List (Option String × Json) → List Char
  | [] => []
  | (name, value) :: members =>
    ',' :: newLine depth ++ quote name ++ [':', ' '] ++ write depth value ++ writeMembers depth members
end

/-- The text of a value. -/
def pretty (j : Json) : String :=
  String.ofList (write 0 j)

end Reflection.Json
