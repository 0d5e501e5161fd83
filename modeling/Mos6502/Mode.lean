/-!
Addressing modes: how the bytes after an opcode say what an instruction works on. The number of
those bytes is fixed by the mode.
-/

set_option autoImplicit false

namespace Mos6502

/-- The thirteen addressing modes. -/
inductive Mode where
  /-- Nothing to name. -/
  | implied
  /-- The accumulator itself. -/
  | accumulator
  /-- The byte after the opcode. -/
  | immediate
  /-- An address on page zero. -/
  | zeroPage
  /-- An address on page zero, plus X, staying on the page. -/
  | zeroPageX
  /-- An address on page zero, plus Y, staying on the page. -/
  | zeroPageY
  /-- A signed distance from the next instruction. -/
  | relative
  /-- An address. -/
  | absolute
  /-- An address plus X. -/
  | absoluteX
  /-- An address plus Y. -/
  | absoluteY
  /-- The address of a pointer. -/
  | indirect
  /-- A pointer on page zero, found by adding X. -/
  | indirectX
  /-- A pointer on page zero, to which Y is added. -/
  | indirectY
  deriving DecidableEq, Repr, Inhabited

namespace Mode

/-- Every mode, in the order in which they are listed. -/
def all : List Mode :=
  [.implied, .accumulator, .immediate, .zeroPage, .zeroPageX, .zeroPageY, .relative, .absolute,
    .absoluteX, .absoluteY, .indirect, .indirectX, .indirectY]

/-- The name of a mode. -/
def name : Mode → String
  | .implied => "Implied"
  | .accumulator => "Accumulator"
  | .immediate => "Immediate"
  | .zeroPage => "ZeroPage"
  | .zeroPageX => "ZeroPageX"
  | .zeroPageY => "ZeroPageY"
  | .relative => "Relative"
  | .absolute => "Absolute"
  | .absoluteX => "AbsoluteX"
  | .absoluteY => "AbsoluteY"
  | .indirect => "Indirect"
  | .indirectX => "IndirectX"
  | .indirectY => "IndirectY"

/-- The mode with a name, if there is one. -/
def ofName? (name : String) : Option Mode :=
  all.find? (·.name == name)

/-- The number of bytes that follow the opcode. -/
def operandSize : Mode → Nat
  | .implied | .accumulator => 0
  | .immediate | .zeroPage | .zeroPageX | .zeroPageY | .relative | .indirectX | .indirectY => 1
  | .absolute | .absoluteX | .absoluteY | .indirect => 2

/-- The number of bytes of a whole instruction, its opcode included. -/
def instructionSize (mode : Mode) : Nat :=
  mode.operandSize + 1

end Mode

end Mos6502
