import Mos6502.Proofs.Stepping

/-!
Machines whose reads change nothing. On a quiet bus a step reads as much as it likes: the machine on
which an instruction's action is performed is the machine from before the step, whether anybody
watches the trace or not.
-/

set_option autoImplicit false

namespace Mos6502

variable {M : Type} [QuietBus M]

namespace Bus

@[simp] theorem fst_read_quiet (mem : M) (address : UInt16) :
    (read mem address).1 = QuietBus.peek mem address := by
  rw [QuietBus.read_eq]

@[simp] theorem snd_read_quiet (mem : M) (address : UInt16) : (read mem address).2 = mem := by
  rw [QuietBus.read_eq]

@[simp] theorem snd_readBytes_quiet (mem : M) (address : UInt16) (count : Nat) :
    (readBytes mem address count).2 = mem := by
  induction count generalizing address with
  | zero => rfl
  | succ count ih => simp [readBytes, ih]

end Bus

/-- Resolving an operand changes nothing on a quiet bus. -/
@[simp] theorem Operand.snd_resolve_quiet (mode : Mode) (pc : UInt16) (x y : UInt8) (mem : M) :
    (resolve mode pc x y mem).2 = mem := by
  cases mode <;> simp [resolve, Bus.readWord_quiet, Bus.readPointer_quiet]

namespace Machine

omit [QuietBus M] in
theorem snd_onBus {α : Type} (act : M → α × M) {m : Machine M} (hact : (act m.mem).2 = m.mem) :
    (m.onBus act).2 = m := by
  obtain ⟨cpu, mem⟩ := m
  exact congrArg (Machine.mk cpu) hact

@[simp] theorem snd_read_quiet (address : UInt16) (m : Machine M) : (m.read address).2 = m :=
  snd_onBus (Bus.read · address) (Bus.snd_read_quiet m.mem address)

theorem opcodeByte_quiet (m : Machine M) : m.opcodeByte = QuietBus.peek m.mem m.cpu.pc :=
  Bus.fst_read_quiet m.mem m.cpu.pc

@[simp] theorem fetched_quiet (m : Machine M) : m.fetched = m :=
  snd_read_quiet m.cpu.pc m

@[simp] theorem snd_traceInstruction_quiet (watch : Bool) (op : Opcode) (m : Machine M) :
    (m.traceInstruction watch op).2 = m := by
  unfold traceInstruction
  split
  · exact snd_onBus (Bus.readBytes · m.cpu.pc (if watch then op.size else 0))
      (Bus.snd_readBytes_quiet ..)
  · rfl

/-- Reading an instruction changes nothing on a quiet bus. -/
@[simp] theorem decoded_quiet (op : Opcode) (m : Machine M) : m.decoded op = m := by
  rw [decoded, fetched_quiet]
  exact snd_onBus _ (Operand.snd_resolve_quiet ..)

/-- An action is performed on the machine from before the step. -/
@[simp] theorem snd_poised_quiet (watch : Bool) (op : Opcode) (m : Machine M) :
    (m.poised watch op).2 = m := by
  rw [poised_eq, snd_traceInstruction_quiet, decoded_quiet]

/-- A step that has an instruction to execute performs its action, and then charges what it cost. -/
theorem performed_of_upcoming? {m : Machine M} {op : Opcode} (hop : m.upcoming? = some op)
    (watch : Bool) :
    ∃ perform cost,
      op.mnemonic.action.perform? (m.resolved op).operand (m.following op) = some perform ∧
        (m.step watch).result = .ok cost ∧
        (m.step watch).machine = (perform m).machine.mapState (.charge cost.val) := by
  obtain ⟨perform, hperform, hstep⟩ := step_of_upcoming? hop watch
  have hready := snd_poised_quiet watch op m
  have hcost : 0 < (op.cost (m.resolved op).crossed).val + (perform m).extraCycles :=
    Nat.lt_add_right _ (op.cost _).property
  refine ⟨perform, ⟨_, hcost⟩, hperform, ?_, ?_⟩
  · rw [hstep]
    simp only [executed, hready]
  · rw [hstep]
    simp only [executed, hready]

end Machine

end Mos6502
