import Mos6502.Hex
import Mos6502.Cpu
import Mos6502.Log.Category
import Mos6502.Log.Level
import Mos6502.Opcode

/-!
What a machine reports while it runs. Every event belongs to a category, has a level that says how
important it is, and has a text of one line.
-/

set_option autoImplicit false

namespace Mos6502

/-- An instruction about to be executed, and the processor before it is. -/
structure TraceLine where
  opcode : Opcode
  /-- The bytes of the instruction. -/
  bytes : List UInt8
  pc : UInt16
  registers : Registers
  cycles : UInt64
  deriving DecidableEq, Repr

/-- What a machine can report. -/
inductive Event where
  | reset (pc : UInt16)
  | interrupt (source : Interrupt) (pc handler : UInt16)
  | illegalOpcode (opcode : UInt8) (pc : UInt16)
  | instruction (line : TraceLine)
  | jumpToSelf (pc : UInt16)
  | softwareBreak (pc handler : UInt16)
  | returnFromInterrupt (pc : UInt16)
  deriving DecidableEq, Repr

/-- The text of a trace line: the address, the bytes padded to the width of three, a star if the
opcode is undocumented, the name, and the registers before execution. -/
def TraceLine.message (line : TraceLine) : String :=
  let bytes := " ".intercalate (line.bytes.map hexByte)
  let padded := bytes ++ String.ofList (List.replicate (8 - bytes.length) ' ')
  let marker := if line.opcode.unofficial then "*" else " "
  let r := line.registers
  s!"{hexWord line.pc}  {padded} {marker}{line.opcode.name}" ++
    s!" A:{hexByte r.a} X:{hexByte r.x} Y:{hexByte r.y} P:{hexByte r.flags.toByte}" ++
    s!" SP:{hexByte r.sp} CYC:{line.cycles.toNat}"

/-- The name of an interrupt. -/
def Interrupt.name : Interrupt → String
  | .nmi => "NMI"
  | .irq => "IRQ"

namespace Event

/-- What an event is about. -/
def category : Event → Category
  | reset _ | instruction _ | jumpToSelf _ => .cpu
  | interrupt _ _ _ | softwareBreak _ _ | returnFromInterrupt _ => .interrupts
  | illegalOpcode _ _ => .decode

/-- How important an event is. -/
def level : Event → Level
  | illegalOpcode _ _ => .error
  | reset _ => .info
  | interrupt _ _ _ | jumpToSelf _ => .debug
  | instruction _ | softwareBreak _ _ | returnFromInterrupt _ => .trace

/-- The text of an event. -/
def message : Event → String
  | reset pc => s!"CPU: reset, PC={hexWord pc}"
  | interrupt source pc handler =>
    s!"CPU: {source.name} at PC={hexWord pc} -> {hexWord handler}"
  | illegalOpcode opcode pc => s!"CPU: illegal opcode {hexByte opcode} at PC={hexWord pc}"
  | instruction line => line.message
  | jumpToSelf pc => s!"CPU: JMP to self at {hexWord pc}"
  | softwareBreak pc handler => s!"CPU: BRK at PC={hexWord pc} -> {hexWord handler}"
  | returnFromInterrupt pc => s!"CPU: RTI -> {hexWord pc}"

end Event

end Mos6502
