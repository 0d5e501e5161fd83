import Mos6502.Cpu
import Mos6502.Json.Decode

/-!
Saved states: the state of a processor as data that can be kept and loaded again, into the same
processor or another one. A saved state carries the version of its form; states of another version,
and states that are not complete, are refused as a whole.
-/

set_option autoImplicit false

namespace Mos6502

open Json (Decoder Value)

namespace Flags

/-- The flags, by name. -/
def fields : List (Decoder.Field Flags) :=
  [.of "c" .bool fun b f ↦ { f with c := b }, .of "z" .bool fun b f ↦ { f with z := b },
    .of "i" .bool fun b f ↦ { f with i := b }, .of "d" .bool fun b f ↦ { f with d := b },
    .of "b" .bool fun b f ↦ { f with b := b }, .of "u" .bool fun b f ↦ { f with u := b },
    .of "v" .bool fun b f ↦ { f with v := b }, .of "n" .bool fun b f ↦ { f with n := b }]

/-- Flags as data. -/
def toJson (f : Flags) : Value :=
  .object [("c", .bool f.c), ("z", .bool f.z), ("i", .bool f.i), ("d", .bool f.d), ("b", .bool f.b),
    ("u", .bool f.u), ("v", .bool f.v), ("n", .bool f.n)]

/-- The flags that data describes. -/
def ofJson : Decoder Flags :=
  Decoder.record "Flags" fields {}

end Flags

/-- The interrupts pending and running. -/
structure InterruptStatus where
  pending : PerInterrupt Bool := .both false
  running : PerInterrupt Bool := .both false
  deriving DecidableEq, Repr

namespace InterruptStatus

/-- The parts of the status, by name. -/
def fields : List (Decoder.Field InterruptStatus) :=
  [.of "nmi_pending" .bool fun b s ↦ { s with pending := s.pending.set .nmi b },
    .of "irq_pending" .bool fun b s ↦ { s with pending := s.pending.set .irq b },
    .of "nmi_running" .bool fun b s ↦ { s with running := s.running.set .nmi b },
    .of "irq_running" .bool fun b s ↦ { s with running := s.running.set .irq b }]

/-- The status as data. -/
def toJson (s : InterruptStatus) : Value :=
  .object [("nmi_pending", .bool s.pending.nmi), ("irq_pending", .bool s.pending.irq),
    ("nmi_running", .bool s.running.nmi), ("irq_running", .bool s.running.irq)]

/-- The status that data describes. -/
def ofJson : Decoder InterruptStatus :=
  Decoder.record "InterruptStatus" fields {}

end InterruptStatus

namespace State

/-- The interrupts pending and running. -/
def interrupts (s : State) : InterruptStatus :=
  ⟨s.pending, s.running⟩

/-- The parts of a state, by name. -/
def fields : List (Decoder.Field State) :=
  [.of "a" .byte fun b s ↦ { s with registers := { s.registers with a := b } },
    .of "x" .byte fun b s ↦ { s with registers := { s.registers with x := b } },
    .of "y" .byte fun b s ↦ { s with registers := { s.registers with y := b } },
    .of "sp" .byte fun b s ↦ { s with registers := { s.registers with sp := b } },
    .of "pc" .word fun w s ↦ { s with pc := w },
    .of "flags" Flags.ofJson fun f s ↦ { s with registers := { s.registers with flags := f } },
    .of "cycles" .count fun n s ↦ { s with cycles := n },
    .of "stall_cycles" .count fun n s ↦ { s with stall := n },
    .of "interrupts" InterruptStatus.ofJson fun i s ↦
      { s with pending := i.pending, running := i.running }]

/-- A state as data. -/
def toJson (s : State) : Value :=
  .object [("a", .int s.registers.a.toNat), ("x", .int s.registers.x.toNat),
    ("y", .int s.registers.y.toNat), ("sp", .int s.registers.sp.toNat), ("pc", .int s.pc.toNat),
    ("flags", s.registers.flags.toJson), ("cycles", .int s.cycles.toNat),
    ("stall_cycles", .int s.stall.toNat), ("interrupts", s.interrupts.toJson)]

/-- The state that data describes. -/
def ofJson : Decoder State :=
  Decoder.record "CpuState" fields powerOn

/-- The version of the form in which states are saved. -/
def version : Nat := 1

/-- A state in the form in which it is saved. -/
def save (s : State) : Value :=
  .object [("version", .int version), ("cpu", s.toJson)]

/-- Why a saved state cannot be loaded. -/
inductive LoadFault where
  | unsupportedVersion (version : Nat)
  | mismatch (m : Json.Mismatch)
  deriving Repr

/-- The text of a `LoadFault`. -/
def LoadFault.message : LoadFault → String
  | unsupportedVersion version => s!"unsupported 6502 save state version {version}"
  | mismatch m => m.message

/-- The version that a saved state says it has; zero if it does not say a number of 64 bits. -/
def savedVersion (v : Value) : Nat :=
  match (v.member? "version").bind Value.integer? with
  | some n => if 0 ≤ n ∧ n < UInt64.size then n.toNat else 0
  | none => 0

/-- The state that a saved state holds. -/
def load (v : Value) : Except LoadFault State :=
  if savedVersion v = version then
    (ofJson ((v.member? "cpu").getD .null)).mapError .mismatch
  else .error (.unsupportedVersion (savedVersion v))

end State

end Mos6502
