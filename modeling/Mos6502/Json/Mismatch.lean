import Mos6502.Json.Value
import Mos6502.Text.Quoted

/-!
How a value can fail to have the form that is wanted of it, and the texts that say so.
-/

set_option autoImplicit false

namespace Mos6502.Json

/-- What was found where something else was wanted: a scalar with its value, a container without. -/
inductive Found where
  | null
  | bool (b : Bool)
  | number (n : Number)
  | string (s : String)
  | sequence
  | map
  deriving Inhabited, Repr

namespace Found

/-- The text of what was found. -/
def text : Found → String
  | null => "null"
  | bool b => s!"boolean `{b}`"
  | number (.integer n) => s!"integer `{n}`"
  | number (.real x) => s!"floating point `{realText x}`"
  | string s => s!"string {quoted s}"
  | sequence => "sequence"
  | map => "map"

/-- What an integer is found to be. -/
def integer (n : Int) : Found :=
  number (.integer n)

/-- What a value is found to be. -/
def ofValue : Value → Found
  | .null => null
  | .bool b => bool b
  | .number n => number n
  | .string s => string s
  | .array _ => sequence
  | .object _ => map

end Found

/-- How a value fails to have the wanted form. -/
inductive Mismatch where
  /-- It is of another kind. -/
  | invalidType (found : Found) (expected : String)
  /-- It is of the right kind, but not one of those that are wanted. -/
  | invalidValue (found : Found) (expected : String)
  /-- It has the wrong number of elements. -/
  | invalidLength (length : Nat) (expected : String)
  /-- It lacks a member. -/
  | missingField (name : String)
  /-- It has a member twice. -/
  | duplicateField (name : String)
  /-- It is none of the names that are known. -/
  | unknownVariant (name : String) (known : List String)
  deriving Inhabited, Repr

/-- The text of a mismatch. -/
def Mismatch.message : Mismatch → String
  | invalidType found expected => s!"invalid type: {found.text}, expected {expected}"
  | invalidValue found expected => s!"invalid value: {found.text}, expected {expected}"
  | invalidLength length expected => s!"invalid length {length}, expected {expected}"
  | missingField name => s!"missing field `{name}`"
  | duplicateField name => s!"duplicate field `{name}`"
  | unknownVariant name known =>
    let listed := known.map fun k ↦ s!"`{k}`"
    s!"unknown variant `{name}`, expected one of " ++ ", ".intercalate listed

end Mos6502.Json
