import Mos6502.Action

/-!
What computations do to a machine. Instructions compute with a byte found at a `Source`, or change a
cell, and either way the registers after it are a function of the registers before it and of that
byte (`Machine.cpu_consume`, `Machine.cpu_changeCell`).

Computations say something about their result with the flags C, Z, V and N. The other four are
control flags: the instructions that compute with a byte leave them alone (`Mnemonic.sameControl`), so
it is after the instruction as before that arithmetic is decimal or not and that an interrupt is due
or not.
-/

set_option autoImplicit false

namespace Mos6502

/-- The flags that say nothing about a result are the same. -/
structure Flags.SameControl (f g : Flags) : Prop where
  i : f.i = g.i
  d : f.d = g.d
  b : f.b = g.b
  u : f.u = g.u

/-- The computation with a byte that belongs to an action, if one does. -/
def Action.compute? : Action → Option ByteOp
  | .consume compute | .changeThenConsume _ compute => some compute
  | _ => none

namespace Registers

theorem sameControl_applyCell (cell : CellOp) (r : Registers) (value : UInt8) :
    (r.applyCell cell value).2.flags.SameControl r.flags :=
  ⟨rfl, rfl, rfl, rfl⟩

theorem sameControl_add (mode : Bool) (r : Registers) (m : UInt8) :
    (r.add mode m).flags.SameControl r.flags := by
  rw [add]
  split <;> exact ⟨rfl, rfl, rfl, rfl⟩

end Registers

/-- Instructions that compute with a byte leave the control flags alone. -/
theorem Mnemonic.sameControl {mnemonic : Mnemonic} {compute : ByteOp}
    (hcompute : mnemonic.action.compute? = some compute) (mode : Bool) (r : Registers) (m : UInt8) :
    (compute mode r m).flags.SameControl r.flags := by
  cases mnemonic with
  | adc | rra =>
    cases hcompute
    exact r.sameControl_add mode m
  | _ =>
    cases hcompute
    try exact ⟨rfl, rfl, rfl, rfl⟩

/-- It depends on the requests and on one control flag whether an interrupt is due. -/
theorem State.due?_of_sameControl {s t : State} (hpending : s.pending = t.pending)
    (hcontrol : s.registers.flags.SameControl t.registers.flags) : s.due? = t.due? := by
  rw [due?, due?, hpending, hcontrol.i]

variable {M : Type} [Bus M]

/-- The byte that is found at a source. -/
def Source.byte (m : Machine M) : Source → UInt8
  | .value byte => byte
  | .cell address => (m.read address).1

namespace Machine

@[simp] theorem cpu_consume (compute : ByteOp) (source : Source) (m : Machine M) :
    (m.consume compute source).cpu =
      { m.cpu with
        registers := compute m.cpu.options.decimalMode m.cpu.registers (source.byte m) } := by
  cases source <;> rfl

@[simp] theorem cpu_changeCell (cell : CellOp) (address : UInt16) (m : Machine M) :
    (m.changeCell cell address).cpu =
      { m.cpu with registers := (m.cpu.registers.applyCell cell (m.read address).1).2 } :=
  rfl

@[simp] theorem mem_changeCell (cell : CellOp) (address : UInt16) (m : Machine M) :
    (m.changeCell cell address).mem =
      Bus.write (m.read address).2.mem address
        (m.cpu.registers.applyCell cell (m.read address).1).1 :=
  rfl

end Machine

end Mos6502
