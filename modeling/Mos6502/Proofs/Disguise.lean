import Mos6502.Proofs.Quiet

/-!
Machines in disguise. Instructions see a bus through its reads and writes alone, and of the processor
they see neither the count of cycles nor whether their steps are traced. A `Disguise` changes what
they do not see: it puts another bus that answers alike in the place of the one that is there, sets
the count of cycles forward, and switches tracing on or off.

No action sees through a disguise (`Action.perform?_disguised`, one walk through the actions), and
where the other bus is quiet no step does (`Machine.step_disguised`): a disguised machine steps to the
disguise of what the machine steps to. The bus has to be quiet because of the traces. They make reads
that happen or do not, and on a quiet bus this cannot be told afterwards.
-/

set_option autoImplicit false

namespace Mos6502

/-- A change to machines that instructions do not notice. -/
structure Disguise (M N : Type) [Bus M] [Bus N] where
  /-- The bus that takes the place of another. -/
  bus : M → N
  /-- How far the count of cycles is set forward. -/
  cycles : UInt64 := 0
  /-- Whether steps are traced, given whether they were. -/
  trace : Bool → Bool := id
  /-- The other bus answers alike. -/
  read_bus : ∀ mem address,
    Bus.read (bus mem) address = ((Bus.read mem address).1, bus (Bus.read mem address).2)
  /-- The other bus takes writes alike. -/
  write_bus : ∀ mem address value,
    Bus.write (bus mem) address value = bus (Bus.write mem address value)

variable {M N : Type} [Bus M] [Bus N]

/-- The disguise that changes nothing. -/
def Disguise.self {M : Type} [Bus M] : Disguise M M where
  bus := id
  read_bus _ _ := rfl
  write_bus _ _ _ := rfl

/-- A machine in disguise. -/
def Machine.disguised (d : Disguise M N) (m : Machine M) : Machine N where
  cpu := { m.cpu with
    cycles := m.cpu.cycles + d.cycles
    options := { m.cpu.options with trace := d.trace m.cpu.options.trace } }
  mem := d.bus m.mem

/-- What an action came to, in disguise. -/
def Performed.disguised (d : Disguise M N) (p : Performed M) : Performed N :=
  { p with machine := p.machine.disguised d }

namespace Disguise

variable (d : Disguise M N)

@[simp] theorem readWord_bus (mem : M) (address : UInt16) :
    Bus.readWord (d.bus mem) address =
      ((Bus.readWord mem address).1, d.bus (Bus.readWord mem address).2) := by
  simp [Bus.readWord, d.read_bus]

@[simp] theorem readPointer_bus (mem : M) (address : UInt16) :
    Bus.readPointer (d.bus mem) address =
      ((Bus.readPointer mem address).1, d.bus (Bus.readPointer mem address).2) := by
  simp [Bus.readPointer, d.read_bus]

theorem readBytes_bus (mem : M) (address : UInt16) (count : Nat) :
    Bus.readBytes (d.bus mem) address count =
      ((Bus.readBytes mem address count).1, d.bus (Bus.readBytes mem address count).2) := by
  induction count generalizing mem address with
  | zero => rfl
  | succ count ih => simp [Bus.readBytes, d.read_bus, ih]

/-- An operand resolves to the same on the other bus. -/
theorem resolve_bus (mode : Mode) (pc : UInt16) (x y : UInt8) (mem : M) :
    Operand.resolve mode pc x y (d.bus mem) =
      ((Operand.resolve mode pc x y mem).1, d.bus (Operand.resolve mode pc x y mem).2) := by
  cases mode <;> simp [Operand.resolve, d.read_bus]

end Disguise

namespace Machine

variable (d : Disguise M N) (m : Machine M)

/-! ### What actions are made of -/

@[simp] theorem disguised_self : m.disguised .self = m := by
  simp [disguised, Disguise.self]

@[simp] theorem registers_disguised : (m.disguised d).cpu.registers = m.cpu.registers :=
  rfl

@[simp] theorem pc_disguised : (m.disguised d).cpu.pc = m.cpu.pc :=
  rfl

@[simp] theorem vectors_disguised : (m.disguised d).cpu.vectors = m.cpu.vectors :=
  rfl

@[simp] theorem decimalMode_disguised :
    (m.disguised d).cpu.options.decimalMode = m.cpu.options.decimalMode :=
  rfl

/-- What a bus answers is answered in disguise, if the other bus answers alike. -/
theorem onBus_disguised {α : Type} {act : M → α × M} {actAlike : N → α × N}
    (halike : actAlike (d.bus m.mem) = ((act m.mem).1, d.bus (act m.mem).2)) :
    (m.disguised d).onBus actAlike = ((m.onBus act).1, (m.onBus act).2.disguised d) := by
  obtain ⟨cpu, mem⟩ := m
  simp only [disguised, onBus] at halike ⊢
  rw [halike]

@[simp] theorem charge_disguised (cycles : Nat) :
    (m.disguised d).mapState (.charge cycles) = (m.mapState (.charge cycles)).disguised d := by
  obtain ⟨cpu, mem⟩ := m
  simp only [disguised, mapState, State.charge, Machine.mk.injEq, and_true]
  rw [UInt64.add_assoc, UInt64.add_assoc, UInt64.add_comm d.cycles]

@[simp] theorem mapRegisters_disguised (f : Registers → Registers) :
    (m.disguised d).mapRegisters f = (m.mapRegisters f).disguised d :=
  rfl

@[simp] theorem jump_disguised (target : UInt16) :
    (m.disguised d).jump target = (m.jump target).disguised d :=
  rfl

@[simp] theorem read_disguised (address : UInt16) :
    (m.disguised d).read address = ((m.read address).1, (m.read address).2.disguised d) :=
  onBus_disguised d m (d.read_bus m.mem address)

@[simp] theorem write_disguised (address : UInt16) (value : UInt8) :
    (m.disguised d).write address value = (m.write address value).disguised d := by
  obtain ⟨cpu, mem⟩ := m
  simp [disguised, write, d.write_bus]

@[simp] theorem push_disguised (value : UInt8) :
    (m.disguised d).push value = (m.push value).disguised d := by
  simp [push]

@[simp] theorem pop_disguised : (m.disguised d).pop = (m.pop.1, m.pop.2.disguised d) := by
  simp [pop]

@[simp] theorem pushWord_disguised (value : UInt16) :
    (m.disguised d).pushWord value = (m.pushWord value).disguised d := by
  simp [pushWord]

@[simp] theorem popWord_disguised :
    (m.disguised d).popWord = (m.popWord.1, m.popWord.2.disguised d) := by
  simp [popWord]

@[simp] theorem enterHandler_disguised (software : Bool) (returnTo handler : UInt16) :
    (m.disguised d).enterHandler software returnTo handler =
      (m.enterHandler software returnTo handler).disguised d := by
  simp [enterHandler]

@[simp] theorem changeCell_disguised (cell : CellOp) (address : UInt16) :
    (m.disguised d).changeCell cell address = (m.changeCell cell address).disguised d := by
  simp [changeCell]

@[simp] theorem consume_disguised (compute : ByteOp) (source : Source) :
    (m.disguised d).consume compute source = (m.consume compute source).disguised d := by
  cases source <;> simp [consume]

@[simp] theorem branch_disguised (condition : Flags → Bool) (next target : UInt16) :
    (m.disguised d).branch condition next target =
      (m.branch condition next target).disguised d := by
  by_cases hcondition : condition m.cpu.registers.flags = true
  · simp [branch, Performed.disguised, hcondition]
  · simp [branch, Performed.disguised, hcondition]

@[simp] theorem jumpTo_disguised (target : UInt16) :
    (m.disguised d).jumpTo target = (m.jumpTo target).disguised d :=
  rfl

end Machine

namespace Action

/-- No action sees through a disguise. -/
theorem perform?_disguised (d : Disguise M N) (action : Action) (operand : Operand)
    (next : UInt16) (m : Machine M) :
    (action.perform? operand next).map (· (m.disguised d)) =
      (action.perform? operand next).map fun perform ↦ (perform m).disguised d := by
  cases action with
  | inherent | softwareBreak | push => simp [perform?, Performed.disguised, Machine.breakFrom]
  | endCall =>
    simp only [perform?, Performed.disguised, Option.map_some, Machine.popWord_disguised,
      Machine.jump_disguised]
  | pull =>
    simp only [perform?, Performed.disguised, Option.map_some, Machine.pop_disguised,
      Machine.mapRegisters_disguised, Machine.jump_disguised]
  | endInterrupt =>
    simp only [perform?, Performed.disguised, Option.map_some, Machine.returnFromHandler,
      Machine.pop_disguised, Machine.mapRegisters_disguised, Machine.popWord_disguised]
    rfl
  | consume | store | changeThenConsume | call =>
    simp [perform?, Performed.disguised, Option.map_map, Function.comp_def]
  | change cell =>
    simp only [perform?]
    split <;> simp [Performed.disguised, Option.map_map, Function.comp_def]
  | touch =>
    simp only [perform?]
    split <;> simp [Performed.disguised]
  | branch condition =>
    simp only [perform?, Option.map_map, Function.comp_def, Machine.branch_disguised]
  | jump =>
    simp only [perform?, Option.map_map, Function.comp_def, Machine.jumpTo_disguised]

/-- What an action does to a machine it does to the machine in disguise. -/
theorem perform_disguised (d : Disguise M N) {action : Action} {operand : Operand} {next : UInt16}
    {perform : Machine M → Performed M} {performAlike : Machine N → Performed N}
    (hperform : action.perform? operand next = some perform)
    (halike : action.perform? operand next = some performAlike) (m : Machine M) :
    performAlike (m.disguised d) = (perform m).disguised d := by
  have hsame := perform?_disguised d action operand next m
  rw [hperform, halike] at hsame
  exact Option.some.inj hsame

end Action

namespace Machine

/-! ### Steps -/

section Steps

variable (d : Disguise M N) (m : Machine M)

@[simp] theorem opcodeByte_disguised : (m.disguised d).opcodeByte = m.opcodeByte := by
  simp [opcodeByte, -fst_read]

@[simp] theorem fetched_disguised : (m.disguised d).fetched = m.fetched.disguised d := by
  simp [fetched]

@[simp] theorem upcoming?_disguised : (m.disguised d).upcoming? = m.upcoming? := by
  rw [upcoming?, opcodeByte_disguised]
  rfl

theorem resolve_disguised (op : Opcode) :
    (m.disguised d).fetched.onBus
        (Operand.resolve op.mode m.cpu.pc m.cpu.registers.x m.cpu.registers.y) =
      (m.resolved op, (m.decoded op).disguised d) := by
  rw [fetched_disguised]
  exact onBus_disguised d m.fetched (d.resolve_bus ..)

@[simp] theorem resolved_disguised (op : Opcode) :
    (m.disguised d).resolved op = m.resolved op :=
  congrArg Prod.fst (resolve_disguised d m op)

@[simp] theorem decoded_disguised (op : Opcode) :
    (m.disguised d).decoded op = (m.decoded op).disguised d :=
  congrArg Prod.snd (resolve_disguised d m op)

@[simp] theorem machine_service_disguised (interrupt : Interrupt) :
    ((m.disguised d).service interrupt).machine = (m.service interrupt).machine.disguised d := by
  have hstart : (m.disguised d).mapState (fun s ↦ { s with
      pending := s.pending.set interrupt false
      running := s.running.set interrupt true }) =
      (m.mapState fun s ↦ { s with
        pending := s.pending.set interrupt false
        running := s.running.set interrupt true }).disguised d := rfl
  simp only [service]
  rw [hstart, enterHandler_disguised, charge_disguised]
  rfl

end Steps

/-! ### What a host does -/

section Host

variable (d : Disguise M N) (m : Machine M)

@[simp] theorem refreshVectors_disguised :
    (m.disguised d).refreshVectors = m.refreshVectors.disguised d := by
  obtain ⟨cpu, mem⟩ := m
  simp [disguised, refreshVectors]

@[simp] theorem start_disguised : (m.disguised d).start = m.start.disguised d := by
  have hvector : (m.disguised d).onBus (Bus.readWord · resetVector) =
      ((m.onBus (Bus.readWord · resetVector)).1,
        (m.onBus (Bus.readWord · resetVector)).2.disguised d) :=
    onBus_disguised d m (d.readWord_bus ..)
  simp [start, hvector]

@[simp] theorem reset_disguised : (m.disguised d).reset = m.reset.disguised d := by
  simp only [reset]
  rw [← charge_disguised, ← start_disguised]
  rfl

theorem setOptions_disguised (options : Options) :
    (m.disguised d).setOptions { options with trace := d.trace options.trace } =
      (m.setOptions options).disguised d :=
  rfl

/-- A change of the memory appears in disguise as the change that the other bus undergoes. -/
theorem changeMemory_disguised {change : M → M} {seen : N → N}
    (hseen : ∀ mem, d.bus (change mem) = seen (d.bus mem)) :
    { m.disguised d with mem := seen (m.disguised d).mem } =
      ({ m with mem := change m.mem } : Machine M).disguised d :=
  congrArg (Machine.mk (m.disguised d).cpu) (hseen m.mem).symm

/-- A state that is put into a machine appears in disguise with its cycles set forward. -/
theorem restore_disguised (state : State) :
    (m.disguised d).restore { state with cycles := state.cycles + d.cycles } =
      (m.restore state).disguised d := by
  simp only [restore]
  rw [← refreshVectors_disguised]
  rfl

@[simp] theorem burnStall_disguised (cycles : UInt64) :
    (m.disguised d).mapState (.burnStall cycles) = (m.mapState (.burnStall cycles)).disguised d := by
  obtain ⟨cpu, mem⟩ := m
  simp only [disguised, mapState, State.burnStall, Machine.mk.injEq, and_true]
  rw [UInt64.add_assoc, UInt64.add_assoc, UInt64.add_comm d.cycles]

end Host

/-! ### Steps on a quiet bus in disguise -/

section Quiet

variable {N : Type} [QuietBus N] (d : Disguise M N) (m : Machine M)

/-- What is read for a trace cannot be seen through a disguise with a quiet bus. -/
theorem snd_traceInstruction_disguised (watch : Bool) (op : Opcode) :
    (m.traceInstruction watch op).2.disguised d = m.disguised d := by
  unfold traceInstruction
  split
  · let count := if watch then op.size else 0
    have htrace : (m.disguised d).onBus (Bus.readBytes · m.cpu.pc count) =
        ((m.onBus (Bus.readBytes · m.cpu.pc count)).1,
          (m.onBus (Bus.readBytes · m.cpu.pc count)).2.disguised d) :=
      onBus_disguised d m (d.readBytes_bus ..)
    exact (congrArg Prod.snd htrace).symm.trans (snd_onBus _ (Bus.snd_readBytes_quiet ..))
  · rfl

/-- An action is performed on a machine that looks like the one from before the step. -/
theorem snd_poised_disguised (watch : Bool) (op : Opcode) :
    (m.poised watch op).2.disguised d = m.disguised d := by
  rw [poised_eq, snd_traceInstruction_disguised, ← decoded_disguised, decoded_quiet]

/-- A step does not see through a disguise with a quiet bus, whoever watches the trace. -/
theorem step_disguised (watch watchAlike : Bool) :
    ((m.disguised d).step watchAlike).result = (m.step watch).result ∧
      ((m.disguised d).step watchAlike).machine = (m.step watch).machine.disguised d := by
  obtain ⟨interrupt, hdue, hstep⟩ | ⟨hdue, hbyte, hstep⟩ | ⟨op, perform, hop, hperform, hstep⟩ :=
    m.step_cases watch
  · rw [hstep, step_of_due? (m := m.disguised d) hdue]
    exact ⟨rfl, machine_service_disguised d m interrupt⟩
  · have hbyteAlike : Opcode.decodeUnder (m.disguised d).cpu.options (m.disguised d).opcodeByte =
        none := by
      rw [opcodeByte_disguised]
      exact hbyte
    rw [hstep, step_of_illegal (m := m.disguised d) hdue hbyteAlike]
    refine ⟨?_, fetched_disguised d m⟩
    simp [stopped]
  · have hopAlike : (m.disguised d).upcoming? = some op := (upcoming?_disguised d m).trans hop
    obtain ⟨performAlike, hperformAlike, hstepAlike⟩ := step_of_upcoming? hopAlike watchAlike
    rw [resolved_disguised] at hperformAlike
    have hperformed : performAlike ((m.disguised d).poised watchAlike op).2 =
        (perform (m.poised watch op).2).disguised d := by
      rw [snd_poised_quiet, ← snd_poised_disguised d m watch op]
      exact Action.perform_disguised d hperform hperformAlike _
    rw [hstep, hstepAlike]
    simp only [executed, hperformed, resolved_disguised, Performed.disguised, charge_disguised,
      and_self]

end Quiet

end Machine

end Mos6502
