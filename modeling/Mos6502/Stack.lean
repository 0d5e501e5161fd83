import Mos6502.Cpu

/-!
The stack: page one, addressed by the stack pointer, which names the next free cell. It grows down
and wraps within its page. A word goes on high byte first, so that it lies in memory low byte first.
An interrupt and a break leave a frame of three bytes: the address to return to and the status.
-/

set_option autoImplicit false

namespace Mos6502

/-- The cell that a stack pointer names. -/
def stackCell (sp : UInt8) : UInt16 :=
  word sp 0x01

namespace Machine

variable {M : Type} [Bus M]

/-- Puts a byte on the stack. -/
def push (value : UInt8) (m : Machine M) : Machine M :=
  let sp := m.cpu.registers.sp
  (m.write (stackCell sp) value).mapRegisters fun r ↦ { r with sp := sp - 1 }

/-- Takes a byte off the stack. -/
def pop (m : Machine M) : UInt8 × Machine M :=
  let sp := m.cpu.registers.sp + 1
  (m.mapRegisters fun r ↦ { r with sp }).read (stackCell sp)

/-- Puts a word on the stack, high byte first. -/
def pushWord (value : UInt16) (m : Machine M) : Machine M :=
  (m.push (highByte value)).push (lowByte value)

/-- Takes a word off the stack, low byte first. -/
def popWord (m : Machine M) : UInt16 × Machine M :=
  let (low, m) := m.pop
  let (high, m) := m.pop
  (word low high, m)

/-- Enters a handler: the return address and the status go on the stack, further interrupts are
disabled, and the program goes on at the handler. The pushed status says whether software asked. -/
def enterHandler (software : Bool) (returnTo handler : UInt16) (m : Machine M) : Machine M :=
  let m := m.pushWord returnTo
  let m := m.push (m.cpu.registers.flags.toPushedByte software)
  let m := m.mapRegisters (.mapFlags fun f ↦ { f with i := true })
  m.jump handler

@[simp] theorem cpu_push (value : UInt8) (m : Machine M) :
    (m.push value).cpu =
      { m.cpu with registers := { m.cpu.registers with sp := m.cpu.registers.sp - 1 } } :=
  rfl

@[simp] theorem mem_push (value : UInt8) (m : Machine M) :
    (m.push value).mem = Bus.write m.mem (stackCell m.cpu.registers.sp) value :=
  rfl

@[simp] theorem fst_pop (m : Machine M) :
    m.pop.1 = (Bus.read m.mem (stackCell (m.cpu.registers.sp + 1))).1 :=
  rfl

@[simp] theorem cpu_pop (m : Machine M) :
    m.pop.2.cpu =
      { m.cpu with registers := { m.cpu.registers with sp := m.cpu.registers.sp + 1 } } :=
  rfl

@[simp] theorem mem_pop (m : Machine M) :
    m.pop.2.mem = (Bus.read m.mem (stackCell (m.cpu.registers.sp + 1))).2 :=
  rfl

@[simp] theorem cpu_pushWord (value : UInt16) (m : Machine M) :
    (m.pushWord value).cpu =
      { m.cpu with registers := { m.cpu.registers with sp := m.cpu.registers.sp - 1 - 1 } } :=
  rfl

@[simp] theorem cpu_popWord (m : Machine M) :
    m.popWord.2.cpu =
      { m.cpu with registers := { m.cpu.registers with sp := m.cpu.registers.sp + 1 + 1 } } :=
  rfl

/-- The registers after a handler has been entered: three bytes are on the stack, and interrupts are
disabled. -/
@[simp] theorem cpu_enterHandler (software : Bool) (returnTo handler : UInt16) (m : Machine M) :
    (m.enterHandler software returnTo handler).cpu =
      { m.cpu with
        pc := handler
        registers := { m.cpu.registers with
          sp := m.cpu.registers.sp - 1 - 1 - 1
          flags := { m.cpu.registers.flags with i := true } } } :=
  rfl

end Machine

end Mos6502
