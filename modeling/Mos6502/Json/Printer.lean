import Mos6502.Json.Value

/-!
Writing values as text that people read: one element or member a line, indented by two blanks for
each container around it. Strings escape quotes, backslashes and control characters and nothing
else.
-/

set_option autoImplicit false

namespace Mos6502.Json

/-- A character inside a string. -/
def escapedChar (c : Char) : List Char :=
  match c with
  | '"' => ['\\', '"']
  | '\\' => ['\\', '\\']
  | '\x08' => ['\\', 'b']
  | '\t' => ['\\', 't']
  | '\n' => ['\\', 'n']
  | '\x0c' => ['\\', 'f']
  | '\r' => ['\\', 'r']
  | c =>
    if c.toNat < 0x20 then
      ['\\', 'u', '0', '0', Nat.digitChar (c.toNat / 16), Nat.digitChar (c.toNat % 16)]
    else [c]

/-- A string with its quotes. -/
def escapedString (s : String) : List Char :=
  '"' :: s.toList.flatMap escapedChar ++ ['"']

/-- The start of a line that is indented by a number of containers. -/
def newLine (depth : Nat) : List Char :=
  '\n' :: List.replicate (2 * depth) ' '

/-- Lines between brackets, with commas between them. -/
def bracketed (opening closing : Char) (depth : Nat) (lines : List (List Char)) : List Char :=
  if lines.isEmpty then [opening, closing]
  else
    opening :: (List.intercalate [','] (lines.map (newLine (depth + 1) ++ ·)) ++
      newLine depth ++ [closing])

namespace Value

mutual

/-- A value inside a number of containers. -/
def write (depth : Nat) : Value → List Char
  | .null => ['n', 'u', 'l', 'l']
  | .bool true => ['t', 'r', 'u', 'e']
  | .bool false => ['f', 'a', 'l', 's', 'e']
  | .number (.integer n) => (toString n).toList
  | .number (.real x) => (realText x).toList
  | .string s => escapedString s
  | .array elements => bracketed '[' ']' depth (writeElements (depth + 1) elements)
  | .object members => bracketed '\x7b' '\x7d' depth (writeMembers (depth + 1) members)

/-- The elements of a list, each written. -/
def writeElements (depth : Nat) : List Value → List (List Char)
  | [] => []
  | v :: rest => v.write depth :: writeElements depth rest

/-- The members of an object, each written with its name. -/
def writeMembers (depth : Nat) : List (String × Value) → List (List Char)
  | [] => []
  | (name, v) :: rest =>
    (escapedString name ++ [':', ' '] ++ v.write depth) :: writeMembers depth rest

end

/-- A value as a text of its own. -/
def pretty (v : Value) : String :=
  String.ofList (v.write 0)

end Value

end Mos6502.Json
