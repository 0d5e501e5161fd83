import Mos6502.Json.Number

/-!
Data that a text can describe. The members of an object are a list of named values; where a name
occurs more than once, the last occurrence counts.
-/

set_option autoImplicit false

namespace Mos6502.Json

/-- A value of the data format. -/
inductive Value where
  | null
  | bool (b : Bool)
  | number (n : Number)
  | string (s : String)
  | array (elements : List Value)
  | object (members : List (String × Value))
  deriving Inhabited, Repr

namespace Value

/-- The value of the last member with a name. -/
def lookup (name : String) (members : List (String × Value)) : Option Value :=
  members.reverse.lookup name

/-- The member of an object with a name. Other values have no members. -/
def member? (name : String) : Value → Option Value
  | object members => lookup name members
  | _ => none

/-- The integer that a value is. -/
def integer? : Value → Option Int
  | number (.integer n) => some n
  | _ => none

/-- An integer. -/
def int (n : Int) : Value :=
  .number (.integer n)

end Value

end Mos6502.Json
