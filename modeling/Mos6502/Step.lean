import Mos6502.Action
import Mos6502.Fault

/-!
One step of a machine: it services an interrupt that is due, and otherwise executes the instruction
at the program counter. A step that fails charges nothing and leaves the processor as it was, so the
machine stays at the byte that it cannot execute.

A step also yields the events that it reports, in order. Tracing an instruction reads its bytes once
more; `watch` says whether anybody looks at the trace, and if nobody does, those reads do not
happen.
-/

set_option autoImplicit false

namespace Mos6502

/-- The cycles that a step took: at least one. -/
abbrev Cost := { cycles : Nat // 0 < cycles }

/-- What a step came to: its cost or what stopped it, the machine after it, and its events. -/
structure Step (M : Type) where
  result : Except Fault Cost
  machine : Machine M
  events : List Event := []

namespace Opcode

/-- The table entry for a byte, under options that may make the undocumented ones illegal. -/
def decodeUnder (options : Options) (byte : UInt8) : Option Opcode :=
  (decode byte).filter fun op ↦ options.unofficialOpcodes || !op.unofficial

/-- What an instruction costs before any charge for a taken branch. -/
def cost (op : Opcode) (crossed : Bool) : Cost :=
  ⟨op.cycles + if op.chargesCrossing && crossed then 1 else 0, Nat.lt_add_right _ op.cycles_pos⟩

end Opcode

namespace Machine

variable {M : Type} [Bus M]

/-- Services an interrupt: its request is taken back, its handler is entered from where the program
stands, and it counts as running until a handler returns. -/
def service (interrupt : Interrupt) (m : Machine M) : Step M :=
  let pc := m.cpu.pc
  let handler := m.cpu.vectors.get interrupt
  let m := m.mapState fun s ↦ { s with
    pending := s.pending.set interrupt false
    running := s.running.set interrupt true }
  let m := m.enterHandler false pc handler
  { result := .ok ⟨interruptCycles, by decide⟩
    machine := m.mapState (.charge interruptCycles)
    events := [.interrupt interrupt pc handler] }

/-- The trace of the instruction at the program counter, if tracing is on; its bytes are read only
if somebody watches. -/
def traceInstruction (watch : Bool) (op : Opcode) (m : Machine M) : List Event × Machine M :=
  if m.cpu.options.trace then
    let { registers, pc, cycles, .. } := m.cpu.toState
    let (bytes, m) := m.onBus (Bus.readBytes · pc (if watch then op.size else 0))
    ([.instruction { opcode := op, bytes, pc, registers, cycles }], m)
  else ([], m)

/-- Executes the instruction at the program counter, given the table entry for its opcode. -/
def execute (watch : Bool) (op : Opcode) (m : Machine M) : Step M :=
  let pc := m.cpu.pc
  let { x, y, .. } := m.cpu.registers
  let (resolved, m) := m.onBus (Operand.resolve op.mode pc x y)
  let (traced, m) := m.traceInstruction watch op
  let next := pc + UInt16.ofNat op.size
  match op.mnemonic.action.perform? resolved.operand next with
  | none =>
    { result := .error (.unsupportedOperand op.mnemonic resolved.operand)
      machine := m
      events := traced }
  | some perform =>
    let performed := perform m
    let base := op.cost resolved.crossed
    let cost : Cost := ⟨base.val + performed.extraCycles, Nat.lt_add_right _ base.property⟩
    { result := .ok cost
      machine := performed.machine.mapState (.charge cost.val)
      events := traced ++ performed.events }

/-- Services an interrupt that is due, or executes one instruction. -/
def step (watch : Bool) (m : Machine M) : Step M :=
  match m.cpu.due? with
  | some interrupt => m.service interrupt
  | none =>
    let pc := m.cpu.pc
    let (byte, m) := m.read pc
    match Opcode.decodeUnder m.cpu.options byte with
    | none =>
      { result := .error (.illegalOpcode byte pc)
        machine := m
        events := [.illegalOpcode byte pc] }
    | some op => m.execute watch op

end Machine

end Mos6502
