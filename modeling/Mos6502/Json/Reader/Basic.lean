import Mos6502.Json.Mismatch

/-!
Reading data from text, left to right, without a detour over a tree of values. A reader takes
characters off the front of the text and stops at the first fault: a text that ends too early, a
text that is not well formed, or data that is not of the wanted form.

This module holds the parts that all values are made of: blanks, numbers, strings, and what stands
between elements and members.
-/

set_option autoImplicit false

namespace Mos6502.Json

/-- What stops a reader. -/
inductive Fault where
  /-- The text ends before the value does. -/
  | truncated
  /-- The text is not well formed. -/
  | malformed
  /-- The data is not of the wanted form. -/
  | mismatch (m : Mismatch)
  deriving Inhabited, Repr

/-- The text of a fault. -/
def Fault.message : Fault → String
  | .truncated => "the text ends too early"
  | .malformed => "the text is not well formed"
  | .mismatch m => m.message

/-- Takes what it reads off the front of a text. -/
abbrev Reader := StateT (List Char) (Except Fault)

namespace Reader

/-- Whether a character may stand between the parts of a text. -/
def isBlank (c : Char) : Bool :=
  c == ' ' || c == '\t' || c == '\n' || c == '\r'

/-- Leaves out the blanks that come next. -/
def skipBlanks : Reader Unit :=
  modify (·.dropWhile isBlank)

/-- The next character, if there is one; it stays in the text. -/
def peek? : Reader (Option Char) := do
  return (← get).head?

/-- The next character after blanks; it stays in the text. -/
def peek : Reader Char := do
  skipBlanks
  match ← peek? with
  | some c => return c
  | none => throw .truncated

/-- Takes the next character. -/
def next : Reader Char := do
  match ← get with
  | c :: rest => set rest; return c
  | [] => throw .truncated

/-- Takes the given characters. -/
def expect : List Char → Reader Unit
  | [] => return
  | c :: rest => do
    if (← next) = c then expect rest else throw .malformed

/-- Takes the next character after blanks, which has to be a given one. -/
def punctuation (c : Char) : Reader Unit := do
  if (← peek) = c then discard next else throw .malformed

/-- Reads a whole text; only blanks may follow. -/
def run {α : Type} (reader : Reader α) (text : String) : Except Fault α :=
  match (do let a ← reader; skipBlanks; return a : Reader α) text.toList with
  | .ok (a, []) => .ok a
  | .ok (_, _ :: _) => .error .malformed
  | .error fault => .error fault

/-! ### Numbers -/

/-- Takes the digits that come next. -/
def digits : Reader (List Nat) := do
  let text ← get
  set (text.dropWhile Char.isDigit)
  return (text.takeWhile Char.isDigit).map fun c ↦ c.toNat - '0'.toNat

/-- Takes the digits that come next, of which there has to be one. -/
def someDigits : Reader (List Nat) := do
  match ← peek? with
  | none => throw .truncated
  | some c => if c.isDigit then digits else throw .malformed

/-- Takes a numeral. No numeral has a zero in front of another digit, and where a digit has to be,
no other character can be. -/
def numeral : Reader Numeral := do
  let negative := (← peek?) == some '-'
  if negative then discard next
  let whole ← someDigits
  if whole.head? = some 0 ∧ whole.length ≠ 1 then throw .malformed
  let fraction ← do
    if (← peek?) == some '.' then
      discard next
      someDigits
    else pure []
  let exponent ← do
    if (← peek?) == some 'e' || (← peek?) == some 'E' then
      discard next
      let sign ← peek?
      if sign == some '+' || sign == some '-' then discard next
      pure (some (sign == some '-', ← someDigits))
    else pure none
  return { negative, whole, fraction, exponent }

/-- Takes a number. -/
def number : Reader Number := do
  match (← numeral).value? with
  | some n => return n
  | none => throw .malformed

/-- Takes a numeral whatever it stands for. One that breaks off is not well formed. -/
def skipNumber : Reader Unit := fun text ↦
  match numeral text with
  | .ok (_, rest) => .ok ((), rest)
  | .error _ => .error .malformed

/-! ### Strings -/

/-- The value of a hexadecimal digit in either case. -/
def hexValue? (c : Char) : Option Nat :=
  if c.isDigit then some (c.toNat - '0'.toNat)
  else if 'a' ≤ c ∧ c ≤ 'f' then some (c.toNat - 'a'.toNat + 10)
  else if 'A' ≤ c ∧ c ≤ 'F' then some (c.toNat - 'A'.toNat + 10)
  else none

/-- Takes four hexadecimal digits. They are four bytes of the text; if fewer are left, it ends too
early. -/
def hexQuad : Reader Nat := do
  let text ← get
  if (text.take 4).foldl (fun n c ↦ n + c.utf8Size) 0 < 4 then throw .truncated
  match (text.take 4).mapM hexValue? with
  | some [a, b, c, d] =>
    set (text.drop 4)
    return ((a * 16 + b) * 16 + c) * 16 + d
  | _ => throw .malformed

/-- Takes a character given by its number, after the backslash and the letter. A character beyond 16
bits is given by two numbers, a high and a low surrogate. -/
def numberedChar : Reader Char := do
  let unit ← hexQuad
  if 0xDC00 ≤ unit ∧ unit ≤ 0xDFFF then throw .malformed
  else if 0xD800 ≤ unit ∧ unit ≤ 0xDBFF then
    expect ['\\', 'u']
    let low ← hexQuad
    if 0xDC00 ≤ low ∧ low ≤ 0xDFFF then
      return Char.ofNat (0x10000 + (unit - 0xD800) * 0x400 + (low - 0xDC00))
    else throw .malformed
  else return Char.ofNat unit

/-- Takes what follows a backslash, given a reader for numbered characters. -/
def escaped (numbered : Reader Char) : Reader Char := do
  match ← next with
  | '"' => return '"'
  | '\\' => return '\\'
  | '/' => return '/'
  | 'b' => return '\x08'
  | 'f' => return '\x0c'
  | 'n' => return '\n'
  | 'r' => return '\r'
  | 't' => return '\t'
  | 'u' => numbered
  | _ => throw .malformed

/-- Takes the rest of a string, up to and including its closing quote. The characters so far are
given in reverse. -/
def stringRest (numbered : Reader Char) (taken : List Char) : Nat → Reader String
  | 0 => throw .truncated
  | fuel + 1 => do
    match ← next with
    | '"' => return String.ofList taken.reverse
    | '\\' =>
      let c ← escaped numbered
      stringRest numbered (c :: taken) fuel
    | c =>
      if c.toNat < 0x20 then throw .malformed
      else stringRest numbered (c :: taken) fuel

/-- Takes a string, given a reader for numbered characters. -/
def stringWith (numbered : Reader Char) : Reader String := do
  expect ['"']
  stringRest numbered [] ((← get).length + 1)

/-- Takes a string. -/
def string : Reader String :=
  stringWith numberedChar

/-- Takes a string whatever its numbered characters are. -/
def skipString : Reader Unit :=
  discard (stringWith ((fun _ ↦ ' ') <$> hexQuad))

/-! ### Lists of elements and members -/

/-- Whether another element follows in a list; the comma before it is taken, and so is the bracket
that ends the list. -/
def moreElements (first : Bool) : Reader Bool := do
  match ← peek with
  | ']' => discard next; return false
  | ',' =>
    if first then return true
    discard next
    if (← peek) = ']' then throw .malformed else return true
  | _ => if first then return true else throw .malformed

/-- Whether another member follows in an object; the comma before it is taken, and so is the brace
that ends the object. A member starts with a quote. -/
def moreMembers (first : Bool) : Reader Bool := do
  match ← peek with
  | '\x7d' => discard next; return false
  | c =>
    if !first then
      if c = ',' then discard next else throw .malformed
    if (← peek) = '"' then return true else throw .malformed

end Reader

end Mos6502.Json
