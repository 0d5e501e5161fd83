import Mos6502.Options
import Mos6502.Registers
import Mos6502.Ram

/-!
The processor's own state, without the memory around it, and a machine: a processor on a bus.

`State` is everything that a program and its interrupts have done to the processor; a saved state is
a `State`. A `Cpu` adds what belongs to the machine it sits in: the interrupt vectors as last read
from memory, and the options.
-/

set_option autoImplicit false

namespace Mos6502

/-- The two interrupts that devices can request. -/
inductive Interrupt where
  /-- The interrupt that cannot be disabled. -/
  | nmi
  /-- The interrupt that the I flag disables. -/
  | irq
  deriving DecidableEq, Repr

/-- A pair with a component for each interrupt. -/
structure PerInterrupt (α : Type) where
  nmi : α
  irq : α
  deriving DecidableEq, Repr, Inhabited

namespace PerInterrupt

variable {α : Type}

/-- The component for an interrupt. -/
def get (p : PerInterrupt α) : Interrupt → α
  | .nmi => p.nmi
  | .irq => p.irq

/-- Replaces the component for an interrupt. -/
def set (p : PerInterrupt α) (interrupt : Interrupt) (value : α) : PerInterrupt α :=
  match interrupt with
  | .nmi => { p with nmi := value }
  | .irq => { p with irq := value }

@[simp] theorem get_set (p : PerInterrupt α) (i j : Interrupt) (value : α) :
    (p.set i value).get j = if j = i then value else p.get j := by
  cases i <;> cases j <;> rfl

/-- The same value for both interrupts. -/
def both (value : α) : PerInterrupt α :=
  ⟨value, value⟩

end PerInterrupt

/-- Everything that running has done to a processor. -/
structure State where
  registers : Registers
  pc : UInt16
  /-- The cycles spent so far, stalls included. -/
  cycles : UInt64
  /-- The cycles that the host has queued and that have not been spent yet. -/
  stall : UInt64
  /-- The interrupts requested and not yet serviced. A request made twice is one request. -/
  pending : PerInterrupt Bool
  /-- The interrupts whose handler has been entered and not yet returned from. -/
  running : PerInterrupt Bool
  deriving DecidableEq, Repr, Inhabited

/-- A processor: its state, the interrupt vectors it read last, and its options. -/
structure Cpu extends State where
  vectors : PerInterrupt UInt16
  options : Options
  deriving DecidableEq, Repr, Inhabited

/-- A processor on a bus. -/
structure Machine (M : Type) where
  cpu : Cpu
  mem : M

/-- The cycles that a reset takes. -/
def resetCycles : Nat := 7

/-- The cycles that servicing an interrupt takes. -/
def interruptCycles : Nat := 7

namespace Registers

/-- The registers after power-on and reset. -/
def powerOn : Registers :=
  { a := 0, x := 0, y := 0, sp := 0xFD, flags := .powerOn }

end Registers

namespace State

/-- The state after power-on, before the reset vector has been read. -/
def powerOn : State where
  registers := .powerOn
  pc := 0
  cycles := 0
  stall := 0
  pending := .both false
  running := .both false

/-- Charges cycles. -/
def charge (cycles : Nat) (s : State) : State :=
  { s with cycles := s.cycles + UInt64.ofNat cycles }

/-- Queues stall cycles; the queue stops growing at the largest count. -/
def queueStall (n : UInt64) (s : State) : State :=
  { s with stall := UInt64.ofNat (min (s.stall.toNat + n.toNat) (UInt64.size - 1)) }

/-- Spends queued stall cycles. -/
def burnStall (n : UInt64) (s : State) : State :=
  { s with stall := s.stall - n, cycles := s.cycles + n }

/-- Empties the queue of stall cycles. -/
def dropStall (s : State) : State :=
  { s with stall := 0 }

/-- Requests an interrupt. -/
def request (interrupt : Interrupt) (s : State) : State :=
  { s with pending := s.pending.set interrupt true }

/-- The interrupt to be serviced before the next instruction: the one that cannot be disabled goes
first, and the other waits while I is set. -/
def due? (s : State) : Option Interrupt :=
  if s.pending.nmi then some .nmi
  else if s.pending.irq && !s.registers.flags.i then some .irq
  else none

end State

namespace Machine

variable {M : Type}

/-- Acts on the bus and keeps the processor. -/
@[inline] def onBus {α : Type} (act : M → α × M) : Machine M → α × Machine M
  | ⟨cpu, mem⟩ =>
    let (result, mem) := act mem
    (result, ⟨cpu, mem⟩)

/-- Changes what running has done to the processor. -/
@[inline] def mapState (f : State → State) : Machine M → Machine M
  | ⟨cpu, mem⟩ => ⟨{ cpu with toState := f cpu.toState }, mem⟩

/-- Changes the registers. -/
@[inline] def mapRegisters (f : Registers → Registers) (m : Machine M) : Machine M :=
  m.mapState fun s ↦ { s with registers := f s.registers }

/-- Moves the program counter. -/
@[inline] def jump (target : UInt16) (m : Machine M) : Machine M :=
  m.mapState fun s ↦ { s with pc := target }

/-- Changes the options. -/
def setOptions (options : Options) : Machine M → Machine M
  | ⟨cpu, mem⟩ => ⟨{ cpu with options }, mem⟩

/-- The same processor on another bus. The vectors are those that were read from the old one. -/
def withMemory {N : Type} (m : Machine M) (mem : N) : Machine N :=
  { cpu := m.cpu, mem }

@[simp] theorem cpu_mapState (f : State → State) (m : Machine M) :
    (m.mapState f).cpu = { m.cpu with toState := f m.cpu.toState } :=
  rfl

@[simp] theorem mem_mapState (f : State → State) (m : Machine M) : (m.mapState f).mem = m.mem :=
  rfl

@[simp] theorem cpu_mapRegisters (f : Registers → Registers) (m : Machine M) :
    (m.mapRegisters f).cpu = { m.cpu with registers := f m.cpu.registers } :=
  rfl

@[simp] theorem mem_mapRegisters (f : Registers → Registers) (m : Machine M) :
    (m.mapRegisters f).mem = m.mem :=
  rfl

@[simp] theorem cpu_jump (target : UInt16) (m : Machine M) :
    (m.jump target).cpu = { m.cpu with pc := target } :=
  rfl

@[simp] theorem mem_jump (target : UInt16) (m : Machine M) : (m.jump target).mem = m.mem :=
  rfl

variable [Bus M]

/-- Reads a byte. -/
@[inline] def read (address : UInt16) (m : Machine M) : UInt8 × Machine M :=
  m.onBus (Bus.read · address)

/-- Writes a byte. -/
@[inline] def write (address : UInt16) (value : UInt8) : Machine M → Machine M
  | ⟨cpu, mem⟩ => ⟨cpu, Bus.write mem address value⟩

/-- Reads both interrupt vectors into the processor. -/
def refreshVectors : Machine M → Machine M
  | ⟨cpu, mem⟩ =>
    let (nmi, mem) := Bus.readWord mem nmiVector
    let (irq, mem) := Bus.readWord mem irqVector
    ⟨{ cpu with vectors := ⟨nmi, irq⟩ }, mem⟩

/-- Reads the reset vector into the program counter, and then the interrupt vectors. -/
def start (m : Machine M) : Machine M :=
  let (pc, m) := m.onBus (Bus.readWord · resetVector)
  (m.jump pc).refreshVectors

/-- A machine switched on: it starts where the reset vector points. -/
def powerOn (options : Options) (mem : M) : Machine M :=
  start { cpu := { toState := .powerOn, vectors := .both 0, options }, mem }

/-- Resets a machine: requests and queued stall cycles are dropped, the cycles go on counting, and
the processor starts again where the reset vector points. -/
def reset (m : Machine M) : Machine M :=
  let m := m.mapState fun s ↦ { s with
    registers := .powerOn
    stall := 0
    pending := .both false
    running := .both false }
  m.start.mapState (.charge resetCycles)

/-- Puts a state into the processor, which reads the vectors of the machine that it is in. -/
def restore (state : State) (m : Machine M) : Machine M :=
  (m.mapState fun _ ↦ state).refreshVectors

@[simp] theorem fst_read (address : UInt16) (m : Machine M) :
    (m.read address).1 = (Bus.read m.mem address).1 :=
  rfl

@[simp] theorem cpu_read (address : UInt16) (m : Machine M) : (m.read address).2.cpu = m.cpu :=
  rfl

@[simp] theorem mem_read (address : UInt16) (m : Machine M) :
    (m.read address).2.mem = (Bus.read m.mem address).2 :=
  rfl

@[simp] theorem cpu_write (address : UInt16) (value : UInt8) (m : Machine M) :
    (m.write address value).cpu = m.cpu :=
  rfl

@[simp] theorem mem_write (address : UInt16) (value : UInt8) (m : Machine M) :
    (m.write address value).mem = Bus.write m.mem address value :=
  rfl

end Machine

end Mos6502
