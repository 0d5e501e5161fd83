import Mos6502.Json.Reader.Any

/-!
Reading data of a wanted form: truth values, numbers, texts, known names, and records of such
fields. A value of the wrong kind is read only as far as its kind requires, so what follows it
cannot matter any more.

A record is read field by field into one that holds the defaults, from a list by place or from an
object by name.
-/

set_option autoImplicit false

namespace Mos6502.Json.Reader

/-- Takes as much of a value as its kind requires, and says what it is. Containers are not
entered. -/
def found : Reader Found := do
  match ← peek with
  | 'n' => expect ['n', 'u', 'l', 'l']; return .null
  | 't' => expect ['t', 'r', 'u', 'e']; return .bool true
  | 'f' => expect ['f', 'a', 'l', 's', 'e']; return .bool false
  | '"' => .string <$> string
  | '[' => return .sequence
  | '\x7b' => return .map
  | c => if c = '-' ∨ c.isDigit then .number <$> number else throw .malformed

/-- Stops at a value of the wrong kind. -/
def unwanted {α : Type} (expected : String) : Reader α := do
  throw (.mismatch (.invalidType (← found) expected))

/-- Takes a truth value. -/
def boolean : Reader Bool := do
  match ← peek with
  | 't' => expect ['t', 'r', 'u', 'e']; return true
  | 'f' => expect ['f', 'a', 'l', 's', 'e']; return false
  | _ => unwanted "a boolean"

/-- Takes a natural number of 64 bits. -/
def natural (expected : String) : Reader Nat := do
  let c ← peek
  if c = '-' ∨ c.isDigit then
    match ← number with
    | .integer (.ofNat n) => return n
    | .integer n => throw (.mismatch (.invalidValue (.integer n) expected))
    | n => throw (.mismatch (.invalidType (.number n) expected))
  else unwanted expected

/-- Takes a string, which is called what it is wanted as. -/
def text (expected : String) : Reader String := do
  match ← peek with
  | '"' => string
  | _ => unwanted expected

/-- Takes the word for nothing, or a value. -/
def optional {α : Type} (reader : Reader α) : Reader (Option α) := do
  match ← peek with
  | 'n' => expect ['n', 'u', 'l', 'l']; return none
  | _ => some <$> reader

/-- Takes one of the known names, as a string or as the name of the one member of an object whose
value is the word for nothing. -/
def variant {α : Type} (known : List String) (ofName? : String → Option α) : Reader α := do
  let lookup (name : String) : Reader α :=
    match ofName? name with
    | some a => return a
    | none => throw (.mismatch (.unknownVariant name known))
  match ← peek with
  | '"' => lookup (← string)
  | '\x7b' =>
    discard next
    if (← peek) ≠ '"' then throw .malformed
    let a ← lookup (← string)
    punctuation ':'
    match ← peek with
    | 'n' => expect ['n', 'u', 'l', 'l']
    | _ => unwanted "unit"
    punctuation '\x7d'
    return a
  | _ => throw .malformed

/-! ### Records -/

/-- A field of a record: its name and how it is read into the record. -/
structure Field (σ : Type) where
  name : String
  read : Reader (σ → σ)

/-- A field whose value replaces a part of the record. -/
def Field.of {σ α : Type} (name : String) (reader : Reader α) (put : α → σ → σ) : Field σ :=
  ⟨name, put <$> reader⟩

/-- Takes the fields of a record from a list, by their order. Fields at the end may be left out. -/
def fieldsByPlace {σ : Type} (first : Bool) (record : σ) : List (Field σ) → Reader σ
  | [] => do punctuation ']'; return record
  | field :: rest => do
    if ← moreElements first then
      let change ← field.read
      fieldsByPlace false (change record) rest
    else return record

/-- Takes the fields of a record from an object, by their names. Each may be left out, and none may
occur twice; members with other names are skipped. -/
def fieldsByName {σ : Type} (fields : List (Field σ)) (seen : List String) (first : Bool)
    (record : σ) : Nat → Reader σ
  | 0 => throw .truncated
  | fuel + 1 => do
    if ← moreMembers first then
      let name ← string
      match fields.find? (·.name == name) with
      | some field =>
        if name ∈ seen then throw (.mismatch (.duplicateField name))
        punctuation ':'
        let change ← field.read
        fieldsByName fields (name :: seen) false (change record) fuel
      | none =>
        punctuation ':'
        skip
        fieldsByName fields seen false record fuel
    else return record

/-- Takes a record: a list or an object of fields that replace those of a given record. -/
def record {σ : Type} (title : String) (fields : List (Field σ)) (default : σ) : Reader σ := do
  match ← peek with
  | '[' => discard next; fieldsByPlace true default fields
  | '\x7b' =>
    discard next
    fieldsByName fields [] true default ((← get).length + 1)
  | _ => unwanted s!"struct {title}"

end Mos6502.Json.Reader
