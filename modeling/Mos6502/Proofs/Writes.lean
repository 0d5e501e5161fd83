import Mos6502.Recorder
import Mos6502.Proofs.Computations
import Mos6502.Proofs.StackFrames

/-!
What a step writes. A recorder notes the writes of a machine in order, and those of a step are few:
the frame of a handler that is entered, the bytes that an instruction puts on the stack, or what it
leaves in the cell that its operand names. `Action.Writes` says which they are for every action, and
`Machine.writes_step_of_upcoming?` that a step which executes an instruction makes the writes of its
action and no others.
-/

set_option autoImplicit false

namespace Mos6502

variable {M : Type}

namespace Recorder

/-- The writes that a recorder has noted, in order, each an address and a byte. -/
def writes (recorder : Recorder M) : List (UInt16 × UInt8) :=
  recorder.accesses.toList.filterMap fun
    | .write address value => some (address, value)
    | .read _ _ => none

variable [Bus M]

@[simp] theorem writes_read (recorder : Recorder M) (address : UInt16) :
    (Bus.read recorder address).2.writes = recorder.writes := by
  simp [Bus.read, writes]

@[simp] theorem writes_write (recorder : Recorder M) (address : UInt16) (value : UInt8) :
    (Bus.write recorder address value).writes = recorder.writes ++ [(address, value)] := by
  simp [Bus.write, writes]

@[simp] theorem writes_readWord (recorder : Recorder M) (address : UInt16) :
    (Bus.readWord recorder address).2.writes = recorder.writes := by
  simp [Bus.readWord]

@[simp] theorem writes_readPointer (recorder : Recorder M) (address : UInt16) :
    (Bus.readPointer recorder address).2.writes = recorder.writes := by
  simp [Bus.readPointer]

@[simp] theorem writes_readBytes (recorder : Recorder M) (address : UInt16) (count : Nat) :
    (Bus.readBytes recorder address count).2.writes = recorder.writes := by
  induction count generalizing recorder address with
  | zero => rfl
  | succ count ih => simp [Bus.readBytes, ih]

/-- Resolving an operand writes nothing. -/
@[simp] theorem writes_resolve (mode : Mode) (pc : UInt16) (x y : UInt8) (recorder : Recorder M) :
    (Operand.resolve mode pc x y recorder).2.writes = recorder.writes := by
  cases mode <;> simp [Operand.resolve]

end Recorder

/-- The writes that put the frame of a handler on the stack: the address to return to, high byte
first, and the status. -/
def frameWrites (sp : UInt8) (returnTo : UInt16) (status : UInt8) : List (UInt16 × UInt8) :=
  [(stackCell sp, highByte returnTo), (stackCell (sp - 1), lowByte returnTo),
    (stackCell (sp - 1 - 1), status)]

namespace Action

/-- What an action writes on a processor: its stack operations write at the stack pointer, and the
other actions at the address of the operand or not at all. -/
def Writes (action : Action) (operand : Operand) (next : UInt16) (cpu : Cpu)
    (written : List (UInt16 × UInt8)) : Prop :=
  let sp := cpu.registers.sp
  match action with
  | .store _ | .change _ | .changeThenConsume _ _ =>
    ∀ write ∈ written, operand.address? = some write.1
  | .call =>
    written = [(stackCell sp, highByte (next - 1)), (stackCell (sp - 1), lowByte (next - 1))]
  | .softwareBreak =>
    written = frameWrites sp (next + 1) (cpu.registers.flags.toPushedByte true)
  | .push value => written = [(stackCell sp, value cpu.registers)]
  | _ => written = []

end Action

namespace Machine

variable [Bus M]

@[simp] theorem mem_popWord (m : Machine M) : m.popWord.2.mem = m.pop.2.pop.2.mem :=
  rfl

theorem writes_push (value : UInt8) (m : Machine (Recorder M)) :
    (m.push value).mem.writes = m.mem.writes ++ [(stackCell m.cpu.registers.sp, value)] := by
  simp

theorem writes_pushWord (value : UInt16) (m : Machine (Recorder M)) :
    (m.pushWord value).mem.writes =
      m.mem.writes ++ [(stackCell m.cpu.registers.sp, highByte value),
        (stackCell (m.cpu.registers.sp - 1), lowByte value)] := by
  simp [pushWord]

theorem writes_enterHandler (software : Bool) (returnTo handler : UInt16)
    (m : Machine (Recorder M)) :
    (m.enterHandler software returnTo handler).mem.writes =
      m.mem.writes ++ frameWrites m.cpu.registers.sp returnTo
        (m.cpu.registers.flags.toPushedByte software) := by
  simp [enterHandler, pushWord, frameWrites]

theorem writes_consume (compute : ByteOp) (source : Source) (m : Machine (Recorder M)) :
    (m.consume compute source).mem.writes = m.mem.writes := by
  cases source with
  | value byte => rfl
  | cell address => exact Recorder.writes_read m.mem address

theorem writes_changeCell (cell : CellOp) (address : UInt16) (m : Machine (Recorder M)) :
    ∃ value, (m.changeCell cell address).mem.writes = m.mem.writes ++ [(address, value)] :=
  ⟨_, by rw [mem_changeCell, Recorder.writes_write, mem_read, Recorder.writes_read]⟩

end Machine

variable [Bus M]

/-- An action performed on a machine makes its writes. -/
theorem Action.writes_perform {action : Action} {operand : Operand} {next : UInt16}
    {perform : Machine (Recorder M) → Performed (Recorder M)}
    (hperform : action.perform? operand next = some perform) (m : Machine (Recorder M)) :
    ∃ written, (perform m).machine.mem.writes = m.mem.writes ++ written ∧
      action.Writes operand next m.cpu written := by
  cases action with
  | inherent =>
    cases hperform
    exact ⟨[], (List.append_nil _).symm, rfl⟩
  | consume compute =>
    obtain ⟨source, -, rfl⟩ := Option.map_eq_some_iff.mp hperform
    exact ⟨[], by rw [List.append_nil]; exact m.writes_consume compute source, rfl⟩
  | store value =>
    obtain ⟨address, haddress, rfl⟩ := Option.map_eq_some_iff.mp hperform
    refine ⟨_, Recorder.writes_write m.mem address _, ?_⟩
    rw [Writes, List.forall_mem_singleton]
    exact haddress
  | change cell =>
    rw [perform?] at hperform
    split at hperform
    · cases hperform
      exact ⟨[], (List.append_nil _).symm, by simp [Writes]⟩
    · obtain ⟨address, haddress, rfl⟩ := Option.map_eq_some_iff.mp hperform
      obtain ⟨value, hwrites⟩ := m.writes_changeCell cell address
      exact ⟨[(address, value)], hwrites, by simp [Writes, haddress]⟩
  | changeThenConsume cell compute =>
    obtain ⟨address, haddress, rfl⟩ := Option.map_eq_some_iff.mp hperform
    obtain ⟨value, hwrites⟩ := m.writes_changeCell cell address
    refine ⟨[(address, value)], ?_, by simp [Writes, haddress]⟩
    exact ((m.changeCell cell address).writes_consume compute (.cell address)).trans hwrites
  | touch =>
    rw [perform?] at hperform
    split at hperform
    · cases hperform
      exact ⟨[], (List.append_nil _).symm, rfl⟩
    · cases hperform
      exact ⟨[], by simp, rfl⟩
  | branch condition =>
    obtain ⟨target, -, rfl⟩ := Option.map_eq_some_iff.mp hperform
    refine ⟨[], ?_, rfl⟩
    rw [Machine.branch, List.append_nil]
    split <;> rfl
  | jump =>
    obtain ⟨target, -, rfl⟩ := Option.map_eq_some_iff.mp hperform
    exact ⟨[], (List.append_nil _).symm, rfl⟩
  | call =>
    obtain ⟨target, -, rfl⟩ := Option.map_eq_some_iff.mp hperform
    exact ⟨_, m.writes_pushWord (next - 1), rfl⟩
  | endCall =>
    cases hperform
    exact ⟨[], by simp, rfl⟩
  | softwareBreak =>
    cases hperform
    exact ⟨_, m.writes_enterHandler true (next + 1) m.cpu.vectors.irq, rfl⟩
  | endInterrupt =>
    cases hperform
    exact ⟨[], by simp [Machine.returnFromHandler], rfl⟩
  | push value =>
    cases hperform
    exact ⟨_, m.writes_push (value m.cpu.registers), rfl⟩
  | pull compute =>
    cases hperform
    exact ⟨[], by simp, rfl⟩

namespace Machine

/-- Reading an instruction, and tracing it, writes nothing. -/
theorem writes_poised (watch : Bool) (op : Opcode) (m : Machine (Recorder M)) :
    (m.poised watch op).2.mem.writes = m.mem.writes := by
  have hdecoded : (m.decoded op).mem.writes = m.mem.writes := by
    simp [decoded, fetched, onBus]
  rw [poised_eq, traceInstruction]
  split
  · simpa [onBus] using hdecoded
  · exact hdecoded

/-- A step that services an interrupt writes the frame of its handler. -/
theorem writes_step_of_due? {m : Machine (Recorder M)} {interrupt : Interrupt}
    (hdue : m.cpu.due? = some interrupt) (watch : Bool) :
    (m.step watch).machine.mem.writes =
      m.mem.writes ++ frameWrites m.cpu.registers.sp m.cpu.pc
        (m.cpu.registers.flags.toPushedByte false) := by
  rw [step_of_due? hdue]
  exact writes_enterHandler false m.cpu.pc (m.cpu.vectors.get interrupt) (m.mapState _)

/-- A step that executes an instruction makes the writes of its action. -/
theorem writes_step_of_upcoming? {m : Machine (Recorder M)} {op : Opcode}
    (hop : m.upcoming? = some op) (watch : Bool) :
    ∃ written, (m.step watch).machine.mem.writes = m.mem.writes ++ written ∧
      op.mnemonic.action.Writes (m.resolved op).operand (m.following op) m.cpu written := by
  obtain ⟨perform, hperform, hstep⟩ := step_of_upcoming? hop watch
  obtain ⟨written, hwritten, hwrites⟩ := Action.writes_perform hperform (m.poised watch op).2
  rw [writes_poised] at hwritten
  rw [cpu_poised] at hwrites
  exact ⟨written, by rw [hstep]; exact hwritten, hwrites⟩

end Machine

end Mos6502
