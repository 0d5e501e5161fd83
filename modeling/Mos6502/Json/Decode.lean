import Mos6502.Json.Mismatch

/-!
Taking values apart. A record is a list of its fields' values in order, or an object of them by
name. In an object the members are checked in the ascending order of their names, and only then is
it complained about that one is missing, the first one in the order of the fields; members with
other names do not matter. In a list the elements are checked in order, and the list has to be as
long as the record. Of a record of settings, any member and any elements at the end may be left out.
-/

set_option autoImplicit false

namespace Mos6502.Json

/-- Makes something of a value, or says why it cannot. -/
abbrev Decoder (α : Type) := Value → Except Mismatch α

namespace Decoder

/-- A truth value. -/
def bool : Decoder Bool
  | .bool b => .ok b
  | v => .error (.invalidType (.ofValue v) "a boolean")

/-- A natural number below a bound, of a kind that has a name. -/
def natural (expected : String) (bound : Nat) : Decoder Nat
  | .number (.integer n) =>
    if 0 ≤ n ∧ n < bound then .ok n.toNat else .error (.invalidValue (.integer n) expected)
  | v => .error (.invalidType (.ofValue v) expected)

/-- A byte. -/
def byte : Decoder UInt8 := fun v ↦ UInt8.ofNat <$> natural "u8" UInt8.size v

/-- A word of sixteen bits. -/
def word : Decoder UInt16 := fun v ↦ UInt16.ofNat <$> natural "u16" UInt16.size v

/-- A count of 64 bits. -/
def count : Decoder UInt64 := fun v ↦ UInt64.ofNat <$> natural "u64" UInt64.size v

/-- Nothing, where the word for it is wanted. -/
def unit : Decoder Unit
  | .null => .ok ()
  | v => .error (.invalidType (.ofValue v) "unit")

/-- What a name stands for, if it is one of the known names. -/
def named {α : Type} (known : List String) (ofName? : String → Option α) (name : String) :
    Except Mismatch α :=
  match ofName? name with
  | some a => .ok a
  | none => .error (.unknownVariant name known)

/-- One of the known names, as a string or as the name of the one member of an object whose value is
the word for nothing. -/
def variant {α : Type} (known : List String) (ofName? : String → Option α) : Decoder α
  | .string name => named known ofName? name
  | .object members =>
    match (members.map Prod.fst).eraseDups with
    | [name] => do
      let a ← named known ofName? name
      unit ((Value.lookup name members).getD .null)
      return a
    | _ => .error (.invalidValue .map "map with a single key")
  | v => .error (.invalidType (.ofValue v) "string or map")

/-- A field of a record: its name, and how its value changes the record. -/
structure Field (σ : Type) where
  name : String
  decode : Decoder (σ → σ)

/-- A field whose value replaces a part of the record. -/
def Field.of {σ α : Type} (name : String) (decoder : Decoder α) (put : α → σ → σ) : Field σ :=
  ⟨name, fun v ↦ put <$> decoder v⟩

/-- Puts the elements of a list into the fields of a record, one after the other; `place` counts the
elements before. -/
def fillByPlace {σ : Type} (expected : String) (place : Nat) (record : σ) :
    List (Field σ) → List Value → Except Mismatch σ
  | [], _ => .ok record
  | _ :: _, [] => .error (.invalidLength place expected)
  | field :: fields, v :: rest => do
    let change ← field.decode v
    fillByPlace expected (place + 1) (change record) fields rest

/-- Puts the members of an object into the fields of a record that they are named for. -/
def fillByName {σ : Type} (members : List (String × Value)) (record : σ) :
    List (Field σ) → Except Mismatch σ
  | [] => .ok record
  | field :: fields =>
    match Value.lookup field.name members with
    | none => .error (.missingField field.name)
    | some v => do
      let change ← field.decode v
      fillByName members (change record) fields

/-- Checks the members of an object that are there, in the order in which the fields are given. -/
def checkMembers {σ : Type} (members : List (String × Value)) :
    List (Field σ) → Except Mismatch Unit
  | [] => .ok ()
  | field :: fields => do
    match Value.lookup field.name members with
    | none => pure ()
    | some v => discard (field.decode v)
    checkMembers members fields

/-- The fields in the ascending order of their names. -/
def ascending {σ : Type} (fields : List (Field σ)) : List (Field σ) :=
  fields.mergeSort fun f g ↦ f.name ≤ g.name

/-- A record: a list or an object with all its fields. -/
def record {σ : Type} (title : String) (fields : List (Field σ)) (blank : σ) : Decoder σ
  | .array elements => do
    let expected := s!"struct {title} with {fields.length} elements"
    let filled ← fillByPlace expected 0 blank fields elements
    if elements.length ≤ fields.length then return filled
    else throw (.invalidLength elements.length "fewer elements in array")
  | .object members => do
    checkMembers members (ascending fields)
    fillByName members blank fields
  | v => .error (.invalidType (.ofValue v) s!"struct {title}")

/-- Replaces the fields of a record by the elements of a list, as far as they go. -/
def replaceByPlace {σ : Type} (record : σ) : List (Field σ) → List Value → Except Mismatch σ
  | field :: fields, v :: rest => do
    let change ← field.decode v
    replaceByPlace (change record) fields rest
  | _, _ => .ok record

/-- Replaces the fields of a record by the members of an object that are named for them. -/
def replaceByName {σ : Type} (members : List (String × Value)) (record : σ) :
    List (Field σ) → Except Mismatch σ
  | [] => .ok record
  | field :: fields =>
    match Value.lookup field.name members with
    | none => replaceByName members record fields
    | some v => do
      let change ← field.decode v
      replaceByName members (change record) fields

/-- A record of settings: a list or an object of fields that replace those of a given record. -/
def settings {σ : Type} (title : String) (fields : List (Field σ)) (default : σ) : Decoder σ
  | .array elements => do
    let filled ← replaceByPlace default fields elements
    if elements.length ≤ fields.length then return filled
    else throw (.invalidLength elements.length "fewer elements in array")
  | .object members => replaceByName members default (ascending fields)
  | v => .error (.invalidType (.ofValue v) s!"struct {title}")

end Decoder

end Mos6502.Json
