/-!
The switches that choose between variants of the processor, and whether it traces its steps.
-/

set_option autoImplicit false

namespace Mos6502

/-- How a processor behaves. -/
structure Options where
  /-- Whether the D flag makes addition and subtraction decimal. -/
  decimalMode : Bool := false
  /-- Whether the stable undocumented opcodes are decoded; if not, they are illegal. -/
  unofficialOpcodes : Bool := true
  /-- Whether every executed instruction is logged. -/
  trace : Bool := false
  deriving DecidableEq, Repr, Inhabited

end Mos6502
