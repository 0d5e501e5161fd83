import Mos6502.Hex
import Mos6502.Mnemonic
import Mos6502.Operand

/-!
Why a step can fail, and the texts that say so.
-/

set_option autoImplicit false

namespace Mos6502

/-- What stops a processor. -/
inductive Fault where
  /-- The byte at the program counter is no opcode. -/
  | illegalOpcode (opcode : UInt8) (pc : UInt16)
  /-- An instruction was given an operand of a kind that it cannot work on. -/
  | unsupportedOperand (mnemonic : Mnemonic) (operand : Operand)
  deriving DecidableEq, Repr

/-- The text of a fault. -/
def Fault.message : Fault → String
  | .illegalOpcode opcode pc => s!"illegal opcode ${hexByte opcode} at ${hexWord pc}"
  | .unsupportedOperand mnemonic operand =>
    s!"{mnemonic.name} does not support {operand.kind} operands"

end Mos6502
