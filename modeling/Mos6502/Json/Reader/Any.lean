import Mos6502.Json.Reader.Basic

/-!
Reading any value at all. `value` makes a tree of it; `skip` only checks that it is well formed.
What is skipped may hold numerals too large for a number, and escaped halves of surrogate pairs,
which no string can hold.
-/

set_option autoImplicit false

namespace Mos6502.Json.Reader

/-- Readers for the scalars that are not words, and what to make of the values found. -/
structure Shape (α : Type) where
  number : Reader α
  string : Reader α
  key : Reader String
  null : α
  bool : Bool → α
  array : List α → α
  object : List (String × α) → α

mutual

/-- Takes any value. -/
def any {α : Type} (shape : Shape α) : Nat → Reader α
  | 0 => throw .truncated
  | fuel + 1 => do
    match ← peek with
    | 'n' => expect ['n', 'u', 'l', 'l']; return shape.null
    | 't' => expect ['t', 'r', 'u', 'e']; return shape.bool true
    | 'f' => expect ['f', 'a', 'l', 's', 'e']; return shape.bool false
    | '"' => shape.string
    | '[' => discard next; return shape.array (← elements shape true fuel)
    | '\x7b' => discard next; return shape.object (← members shape true fuel)
    | c => if c = '-' ∨ c.isDigit then shape.number else throw .malformed

/-- Takes the elements of a list that are left, and its end. -/
def elements {α : Type} (shape : Shape α) (first : Bool) : Nat → Reader (List α)
  | 0 => throw .truncated
  | fuel + 1 => do
    if ← moreElements first then
      let head ← any shape fuel
      return head :: (← elements shape false fuel)
    else return []

/-- Takes the members of an object that are left, and its end. -/
def members {α : Type} (shape : Shape α) (first : Bool) : Nat → Reader (List (String × α))
  | 0 => throw .truncated
  | fuel + 1 => do
    if ← moreMembers first then
      let name ← shape.key
      punctuation ':'
      let head ← any shape fuel
      return (name, head) :: (← members shape false fuel)
    else return []

end

/-- Takes a value and makes nothing of it. -/
def skip : Reader Unit := do
  any { number := skipNumber, string := skipString, key := (fun _ ↦ "") <$> skipString,
        null := (), bool := fun _ ↦ (), array := fun _ ↦ (), object := fun _ ↦ () }
    (2 * (← get).length + 2)

/-- Takes a value. -/
def value : Reader Value := do
  any { number := .number <$> number, string := .string <$> string, key := string,
        null := .null, bool := .bool, array := .array, object := .object }
    (2 * (← get).length + 2)

end Mos6502.Json.Reader
