import Mos6502.Emulator
import Mos6502.Proofs.Stepping

/-!
When a processor stops. A step fails at a byte that is no opcode, and at nothing else: the decode
table and the operand resolver never bring an instruction together with an operand that it cannot
work on. A step that fails has read that one byte and has done nothing more, so the processor is the
one from before it, and where reads change nothing the machine stays there for good.

`Machine.Halted` is the state in which this happens, and `Machine.error_iff_halted` says that a
failing step is always one from that state.
-/

set_option autoImplicit false

namespace Mos6502

namespace Machine

variable {M : Type} [Bus M]

/-- No interrupt is due and the byte at the program counter is no opcode. -/
def Halted (m : Machine M) : Prop :=
  m.cpu.due? = none ∧ Opcode.decodeUnder m.cpu.options m.opcodeByte = none

theorem Halted.step_eq {m : Machine M} (hhalted : m.Halted) (watch : Bool) :
    m.step watch = m.stopped :=
  step_of_illegal hhalted.1 hhalted.2 watch

/-- A step fails exactly in a halted machine. -/
theorem error_iff_halted (watch : Bool) (m : Machine M) :
    (∃ fault, (m.step watch).result = .error fault) ↔ m.Halted := by
  constructor
  · rintro ⟨fault, hfault⟩
    obtain ⟨interrupt, -, hstep⟩ | ⟨hdue, hbyte, -⟩ | ⟨op, perform, -, -, hstep⟩ :=
      m.step_cases watch
    · rw [hstep] at hfault
      cases hfault
    · exact ⟨hdue, hbyte⟩
    · rw [hstep] at hfault
      cases hfault
  · intro hhalted
    exact ⟨_, congrArg Step.result (hhalted.step_eq watch)⟩

/-- The only fault is the byte at the program counter. -/
theorem eq_illegalOpcode_of_error {watch : Bool} {m : Machine M} {fault : Fault}
    (hfault : (m.step watch).result = .error fault) :
    fault = .illegalOpcode m.opcodeByte m.cpu.pc := by
  have hhalted := (error_iff_halted watch m).mp ⟨fault, hfault⟩
  rw [hhalted.step_eq watch] at hfault
  cases hfault
  rfl

/-- Where reads change nothing, looking for an opcode changes nothing. -/
theorem fetched_of_quiet (hquiet : ∀ (mem : M) (address : UInt16), (Bus.read mem address).2 = mem)
    (m : Machine M) : m.fetched = m := by
  obtain ⟨cpu, mem⟩ := m
  exact congrArg (Machine.mk cpu) (hquiet mem cpu.pc)

end Machine

namespace Emulator

variable {M : Type} [Bus M]

/-- The emulator after a number of steps, whether they succeed or fail. -/
def afterSteps : Nat → Emulator M → Emulator M
  | 0, s => s
  | count + 1, s => afterSteps count s.step.2

/-- Where reads change nothing, a halted machine is the same after every number of steps. -/
theorem machine_afterSteps_of_halted
    (hquiet : ∀ (mem : M) (address : UInt16), (Bus.read mem address).2 = mem) (count : Nat)
    {s : Emulator M} (hhalted : s.machine.Halted) :
    (s.afterSteps count).machine = s.machine := by
  induction count generalizing s with
  | zero => rfl
  | succ count ih =>
    have hstep : s.step.2.machine = s.machine := by
      rw [machine_step, hhalted.step_eq]
      exact Machine.fetched_of_quiet hquiet s.machine
    rw [afterSteps, ih (hstep ▸ hhalted), hstep]

/-- A step fails exactly when no interrupt can be serviced and the byte at the program counter has
no entry in the decode table, or an undocumented one while those are switched off. The fault is
always that byte at that address; the processor is as it was, and the bus has been read once. Where
reads change nothing, every further step fails in the same way. That no other fault arises is
because every entry accepts, in both halves if it is composed, every operand that its mode resolves
to. -/
theorem step_error_iff_illegalOpcode (s : Emulator M) :
    let cpu := s.machine.cpu
    let byte := (Bus.read s.machine.mem cpu.pc).1
    ((∃ fault, s.step.1 = .error fault) ↔
      (cpu.pending.nmi = false ∧ (cpu.pending.irq = false ∨ cpu.registers.flags.i = true)) ∧
        (Opcode.decode byte = none ∨ ∃ op, Opcode.decode byte = some op ∧
          op.unofficial = true ∧ cpu.options.unofficialOpcodes = false)) ∧
    (∀ fault, s.step.1 = .error fault →
      fault = .illegalOpcode byte cpu.pc ∧
        s.step.2.machine = { cpu, mem := (Bus.read s.machine.mem cpu.pc).2 } ∧
        ((∀ (mem : M) (address : UInt16), (Bus.read mem address).2 = mem) →
          ∀ count, (s.afterSteps count).machine = s.machine ∧
            (s.afterSteps count).step.1 = .error fault)) ∧
    ∀ (byte : UInt8) (op : Opcode), Opcode.decode byte = some op →
      ∀ (pc : UInt16) (x y : UInt8) (mem : M) (next : UInt16),
        let operand := (Operand.resolve op.mode pc x y mem).1.operand
        (op.mnemonic.action.perform? (M := M) operand next).isSome ∧
          ∀ cell compute, op.mnemonic.action = .changeThenConsume cell compute →
            ((Action.change cell).perform? (M := M) operand next).isSome ∧
              ((Action.consume compute).perform? (M := M) operand next).isSome := by
  intro cpu byte
  refine ⟨?_, ?_, ?_⟩
  · rw [fst_step, Machine.error_iff_halted, Machine.Halted, State.due?_eq_none_iff,
      Opcode.decodeUnder_eq_none_iff]
    rfl
  · intro fault hfault
    have hhalted := (Machine.error_iff_halted s.watched s.machine).mp ⟨fault, hfault⟩
    refine ⟨Machine.eq_illegalOpcode_of_error hfault, ?_, ?_⟩
    · rw [machine_step, hhalted.step_eq]
      rfl
    · intro hquiet count
      have hsame := machine_afterSteps_of_halted hquiet count hhalted
      refine ⟨hsame, ?_⟩
      rw [fst_step, hsame, hhalted.step_eq, ← hhalted.step_eq s.watched]
      exact hfault
  · intro byte op hdecode pc x y mem next
    exact ⟨Opcode.isSome_perform?_of_decode hdecode pc x y mem next,
      fun cell compute hcomposed ↦
        Opcode.isSome_perform?_halves hdecode hcomposed pc x y mem next⟩

end Emulator

end Mos6502
