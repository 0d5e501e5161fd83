import Mos6502.Event
import Mos6502.Operand
import Mos6502.Stack

/-!
What instructions do. Each mnemonic stands for an `Action`, and there are few kinds of action: most
say how registers, or a cell, are computed anew, and leave to the kind how the operand is read,
where the result goes, and that the program counter moves on to the next instruction.

The undocumented instructions that change a cell and then compute with it are pairs of a documented
change and a documented computation, performed one after the other on the same cell.
-/

set_option autoImplicit false

namespace Mos6502

/-- A computation on the registers with a byte, which may depend on decimal arithmetic being
enabled. -/
abbrev ByteOp := Bool → Registers → UInt8 → Registers

/-- What an instruction does. -/
inductive Action where
  /-- Computes on the registers alone. -/
  | inherent (compute : Registers → Registers)
  /-- Computes on the registers with the operand's byte. -/
  | consume (compute : ByteOp)
  /-- Writes a byte to the operand's cell. -/
  | store (value : Registers → UInt8)
  /-- Changes the accumulator or the operand's cell. -/
  | change (cell : CellOp)
  /-- Changes the operand's cell, then computes with the byte that is in it. -/
  | changeThenConsume (cell : CellOp) (compute : ByteOp)
  /-- Reads the operand's cell, if there is one, and does nothing with it. -/
  | touch
  /-- Goes to the operand's target if the flags say so. -/
  | branch (condition : Flags → Bool)
  /-- Goes to the operand's target. -/
  | jump
  /-- Goes to the operand's target and leaves the way back on the stack. -/
  | call
  /-- Goes back to where a call came from. -/
  | endCall
  /-- Enters the interrupt handler on behalf of the program. -/
  | softwareBreak
  /-- Goes back to where an interrupt or break came from, with the status from before it. -/
  | endInterrupt
  /-- Puts a byte on the stack. -/
  | push (value : Registers → UInt8)
  /-- Takes a byte off the stack and computes on the registers with it. -/
  | pull (compute : Registers → UInt8 → Registers)

/-- A computation that does not depend on decimal arithmetic. -/
def ByteOp.plain (compute : Registers → UInt8 → Registers) : ByteOp :=
  fun _ ↦ compute

/-- What a mnemonic does. -/
def Mnemonic.action : Mnemonic → Action
  | .lda => .consume (.plain .setA)
  | .ldx => .consume (.plain .setX)
  | .ldy => .consume (.plain .setY)
  | .sta => .store (·.a)
  | .stx => .store (·.x)
  | .sty => .store (·.y)
  | .tax => .inherent fun r ↦ r.setX r.a
  | .tay => .inherent fun r ↦ r.setY r.a
  | .txa => .inherent fun r ↦ r.setA r.x
  | .tya => .inherent fun r ↦ r.setA r.y
  | .tsx => .inherent fun r ↦ r.setX r.sp
  | .txs => .inherent fun r ↦ { r with sp := r.x }
  | .adc => .consume .add
  | .sbc => .consume .subtract
  | .and => .consume (.plain .andA)
  | .ora => .consume (.plain .orA)
  | .eor => .consume (.plain .xorA)
  | .bit => .consume (.plain .testBits)
  | .cmp => .consume (.plain fun r ↦ r.compare r.a)
  | .cpx => .consume (.plain fun r ↦ r.compare r.x)
  | .cpy => .consume (.plain fun r ↦ r.compare r.y)
  | .inc => .change .increment
  | .dec => .change .decrement
  | .inx => .inherent fun r ↦ r.setX (r.x + 1)
  | .iny => .inherent fun r ↦ r.setY (r.y + 1)
  | .dex => .inherent fun r ↦ r.setX (r.x - 1)
  | .dey => .inherent fun r ↦ r.setY (r.y - 1)
  | .asl => .change .shiftLeft
  | .lsr => .change .shiftRight
  | .rol => .change .rotateLeft
  | .ror => .change .rotateRight
  | .bcc => .branch (!·.c)
  | .bcs => .branch (·.c)
  | .bne => .branch (!·.z)
  | .beq => .branch (·.z)
  | .bpl => .branch (!·.n)
  | .bmi => .branch (·.n)
  | .bvc => .branch (!·.v)
  | .bvs => .branch (·.v)
  | .jmp => .jump
  | .jsr => .call
  | .rts => .endCall
  | .brk => .softwareBreak
  | .rti => .endInterrupt
  | .pha => .push (·.a)
  | .php => .push (·.flags.toPushedByte true)
  | .pla => .pull .setA
  | .plp => .pull fun r p ↦ { r with flags := .ofPulledByte p }
  | .clc => .inherent (.mapFlags fun f ↦ { f with c := false })
  | .sec => .inherent (.mapFlags fun f ↦ { f with c := true })
  | .cli => .inherent (.mapFlags fun f ↦ { f with i := false })
  | .sei => .inherent (.mapFlags fun f ↦ { f with i := true })
  | .cld => .inherent (.mapFlags fun f ↦ { f with d := false })
  | .sed => .inherent (.mapFlags fun f ↦ { f with d := true })
  | .clv => .inherent (.mapFlags fun f ↦ { f with v := false })
  | .nop => .touch
  | .slo => .changeThenConsume .shiftLeft (.plain .orA)
  | .rla => .changeThenConsume .rotateLeft (.plain .andA)
  | .sre => .changeThenConsume .shiftRight (.plain .xorA)
  | .rra => .changeThenConsume .rotateRight .add
  | .dcp => .changeThenConsume .decrement (.plain fun r ↦ r.compare r.a)
  | .isc => .changeThenConsume .increment .subtract
  | .lax => .consume (.plain .setAX)
  | .sax => .store fun r ↦ r.a &&& r.x
  | .anc => .consume (.plain .andCarry)
  | .alr => .consume (.plain .andShift)
  | .arr => .consume (.plain .andRotate)
  | .axs => .consume (.plain .andSubtract)

/-- An action performed: the machine after it, the cycles it adds to the cost of its opcode, and
what it reports. -/
structure Performed (M : Type) where
  machine : Machine M
  extraCycles : Nat := 0
  events : List Event := []

namespace Machine

variable {M : Type} [Bus M]

/-- Changes the byte in a cell, with the flags that the change gives. -/
def changeCell (cell : CellOp) (address : UInt16) (m : Machine M) : Machine M :=
  let (old, m) := m.read address
  let (new, registers) := m.cpu.registers.applyCell cell old
  (m.write address new).mapRegisters fun _ ↦ registers

/-- Computes on the registers with the byte found at a source. -/
def consume (compute : ByteOp) (source : Source) (m : Machine M) : Machine M :=
  let decimal := m.cpu.options.decimalMode
  match source with
  | .value byte => m.mapRegisters fun r ↦ compute decimal r byte
  | .cell address =>
    let (byte, m) := m.read address
    m.mapRegisters fun r ↦ compute decimal r byte

/-- Goes to `target` if the flags meet the condition. A branch that is taken costs one cycle more,
or two if it leaves the page of the instruction that follows it. -/
def branch (condition : Flags → Bool) (next target : UInt16) (m : Machine M) : Performed M :=
  if condition m.cpu.registers.flags then
    { machine := m.jump target, extraCycles := if crossesPage next target then 2 else 1 }
  else { machine := m.jump next }

/-- Goes to `target`, and reports it if the jump is already there. -/
def jumpTo (target : UInt16) (m : Machine M) : Performed M :=
  let events := if target = m.cpu.pc then [.jumpToSelf target] else []
  { machine := m.jump target, events }

/-- Enters the interrupt handler; it will return past the byte at `next`, which nobody executes. -/
def breakFrom (next : UInt16) (m : Machine M) : Performed M :=
  let pc := m.cpu.pc
  let handler := m.cpu.vectors.irq
  { machine := m.enterHandler true (next + 1) handler, events := [.softwareBreak pc handler] }

/-- Takes back the status and the address that a handler was entered with. -/
def returnFromHandler (m : Machine M) : Performed M :=
  let (status, m) := m.pop
  let m := m.mapRegisters fun r ↦ { r with flags := .ofPulledByte status }
  let (target, m) := m.popWord
  let m := m.mapState fun s ↦ { s with running := .both false }
  { machine := m.jump target, events := [.returnFromInterrupt target] }

end Machine

namespace Action

variable {M : Type} [Bus M]

/-- How an action with an operand changes a machine whose program counter is still at the
instruction. The program counter moves to `next`, the instruction that follows, unless the action
moves it elsewhere. There is no way to perform an action with an operand of a kind that it cannot
work on. -/
def perform? (action : Action) (operand : Operand) (next : UInt16) :
    Option (Machine M → Performed M) :=
  match action with
  | .inherent compute => some fun m ↦ { machine := (m.mapRegisters compute).jump next }
  | .consume compute =>
    operand.source?.map fun source m ↦ { machine := (m.consume compute source).jump next }
  | .store value =>
    operand.address?.map fun address m ↦
      { machine := (m.write address (value m.cpu.registers)).jump next }
  | .change cell =>
    if operand = .accumulator then
      some fun m ↦ { machine := (m.mapRegisters (.applyA cell)).jump next }
    else
      operand.address?.map fun address m ↦ { machine := (m.changeCell cell address).jump next }
  | .changeThenConsume cell compute =>
    operand.address?.map fun address m ↦
      { machine := ((m.changeCell cell address).consume compute (.cell address)).jump next }
  | .touch =>
    match operand.address? with
    | none => some fun m ↦ { machine := m.jump next }
    | some address => some fun m ↦ { machine := (m.read address).2.jump next }
  | .branch condition => operand.branchTarget?.map (Machine.branch condition next)
  | .jump => operand.jumpTarget?.map Machine.jumpTo
  | .call =>
    operand.callTarget?.map fun target m ↦ { machine := (m.pushWord (next - 1)).jump target }
  | .endCall =>
    some fun m ↦
      let (last, m) := m.popWord
      { machine := m.jump (last + 1) }
  | .softwareBreak => some (Machine.breakFrom next)
  | .endInterrupt => some Machine.returnFromHandler
  | .push value => some fun m ↦ { machine := (m.push (value m.cpu.registers)).jump next }
  | .pull compute =>
    some fun m ↦
      let (byte, m) := m.pop
      { machine := (m.mapRegisters fun r ↦ compute r byte).jump next }

end Action

end Mos6502
