import Mos6502.Proofs.InterruptHistory
import Mos6502.Proofs.Runs
import Mos6502.Proofs.Writes

/-!
The two bits of the status that are no flags. B and U are bits of a byte on the stack: a status that
is pushed has U set, and B set if software pushed it (`Flags.isStatus_toPushedByte`). In the processor
they never change. Every computation leaves them alone, a pull drops what it finds there
(`Mnemonic.settled_perform`), and so B is clear and U set in whatever state an emulator is `Reached`, as long
as the host itself does not write to the flags.
-/

set_option autoImplicit false

namespace Mos6502

/-! ### Bytes on the stack -/

/-- B is clear and U is set. -/
structure Flags.Settled (f : Flags) : Prop where
  b : f.b = false
  u : f.u = true

theorem Flags.SameControl.settled {f g : Flags} (hsame : f.SameControl g) (hg : g.Settled) :
    f.Settled :=
  ⟨hsame.b.trans hg.b, hsame.u.trans hg.u⟩

/-- Instructions that work on the registers alone keep B clear and U set. -/
theorem Mnemonic.settled_inherent {mnemonic : Mnemonic} {compute : Registers → Registers}
    (haction : mnemonic.action = .inherent compute) {r : Registers} (hr : r.flags.Settled) :
    (compute r).flags.Settled := by
  cases mnemonic <;> cases haction <;> exact ⟨hr.b, hr.u⟩

/-- Instructions that take a byte off the stack keep B clear and U set, whatever the byte is: from a
status they take everything else. -/
theorem Mnemonic.settled_pull {mnemonic : Mnemonic} {compute : Registers → UInt8 → Registers}
    (haction : mnemonic.action = .pull compute) {r : Registers} (hr : r.flags.Settled)
    (byte : UInt8) : (compute r byte).flags.Settled := by
  cases mnemonic with
  | pla =>
    cases haction
    exact ⟨hr.b, hr.u⟩
  | plp =>
    cases haction
    exact ⟨rfl, rfl⟩
  | _ => cases haction

variable {M : Type} [Bus M]

/-- Whatever an instruction does, it keeps B clear and U set. -/
theorem Mnemonic.settled_perform {mnemonic : Mnemonic} {operand : Operand} {next : UInt16}
    {perform : Machine M → Performed M}
    (hperform : mnemonic.action.perform? operand next = some perform) {m : Machine M}
    (hm : m.cpu.registers.flags.Settled) :
    (perform m).machine.cpu.registers.flags.Settled := by
  cases haction : mnemonic.action with
  | inherent compute =>
    rw [haction] at hperform
    cases hperform
    exact settled_inherent haction hm
  | consume compute =>
    have hcompute : mnemonic.action.compute? = some compute := by rw [haction]; rfl
    rw [haction] at hperform
    obtain ⟨source, -, rfl⟩ := Option.map_eq_some_iff.mp hperform
    simp only [Machine.cpu_jump, Machine.cpu_consume]
    exact (sameControl hcompute _ _ _).settled hm
  | changeThenConsume cell compute =>
    have hcompute : mnemonic.action.compute? = some compute := by rw [haction]; rfl
    rw [haction] at hperform
    obtain ⟨address, -, rfl⟩ := Option.map_eq_some_iff.mp hperform
    simp only [Machine.cpu_jump, Machine.cpu_consume]
    exact (sameControl hcompute _ _ _).settled ⟨hm.b, hm.u⟩
  | change cell =>
    rw [haction, Action.perform?] at hperform
    split at hperform
    · cases hperform
      exact ⟨hm.b, hm.u⟩
    · obtain ⟨address, -, rfl⟩ := Option.map_eq_some_iff.mp hperform
      exact ⟨hm.b, hm.u⟩
  | pull compute =>
    rw [haction] at hperform
    cases hperform
    have hpopped : m.pop.2.cpu.registers.flags.Settled := ⟨hm.b, hm.u⟩
    exact settled_pull haction hpopped m.pop.1
  | endInterrupt =>
    rw [haction] at hperform
    cases hperform
    exact ⟨rfl, rfl⟩
  | softwareBreak | push | endCall =>
    rw [haction] at hperform
    cases hperform
    exact ⟨hm.b, hm.u⟩
  | store | call =>
    rw [haction] at hperform
    obtain ⟨address, -, rfl⟩ := Option.map_eq_some_iff.mp hperform
    exact ⟨hm.b, hm.u⟩
  | touch =>
    rw [haction, Action.perform?] at hperform
    split at hperform
    · cases hperform
      exact ⟨hm.b, hm.u⟩
    · cases hperform
      exact ⟨hm.b, hm.u⟩
  | branch condition =>
    rw [haction] at hperform
    obtain ⟨target, -, rfl⟩ := Option.map_eq_some_iff.mp hperform
    rw [Machine.branch]
    split <;> exact ⟨hm.b, hm.u⟩
  | jump =>
    rw [haction] at hperform
    obtain ⟨target, -, rfl⟩ := Option.map_eq_some_iff.mp hperform
    exact ⟨hm.b, hm.u⟩

namespace Emulator

/-- A step keeps B clear and U set. -/
theorem settled_step {s : Emulator M} (hs : s.machine.cpu.registers.flags.Settled) :
    s.step.2.machine.cpu.registers.flags.Settled := by
  rw [machine_step]
  obtain ⟨interrupt, -, hstep⟩ | ⟨-, -, hstep⟩ | ⟨op, perform, hop, hperform, hstep⟩ :=
    s.machine.step_cases s.watched
  · rw [hstep]
    exact ⟨hs.b, hs.u⟩
  · rw [hstep]
    exact hs
  · rw [hstep]
    refine Mnemonic.settled_perform hperform (m := (s.machine.poised s.watched op).2) ?_
    rw [Machine.cpu_poised]
    exact hs

end Emulator

/-! ### What a host can come to -/

/-- A command does not write to the flags: the registers that it writes have the flags that are there,
and a state that it puts in is one of those that were taken. -/
def Command.SparesFlags (taken : List State) (flags : Flags) : Command M → Prop
  | .setRegisters registers _ => registers.flags = flags
  | command => ∀ state, command.restored? = some state → state ∈ taken

omit [Bus M] in
theorem Command.SparesFlags.mem_of_restored {taken : List State} {flags : Flags}
    {command : Command M} (hspares : command.SparesFlags taken flags) {state : State}
    (hrestored : command.restored? = some state) : state ∈ taken := by
  cases command with
  | setRegisters => cases hrestored
  | _ => exact hspares state hrestored

/-- An emulator is reached from one that is switched on, by a host that does not write to the flags,
and some states were taken on the way. -/
inductive Reached : {M : Type} → [Bus M] → List State → Emulator M → Prop
  | powerOn {M : Type} [Bus M] (options : Options) (journal : Journal) (mem : M) :
      Reached [] (.powerOn options journal mem)
  /-- Takes the state. -/
  | snapshot {M : Type} [Bus M] {taken : List State} {s : Emulator M} (hs : Reached taken s) :
      Reached (s.machine.cpu.toState :: taken) s
  | turn {M : Type} [Bus M] {taken : List State} {s : Emulator M} (turn : Turn M)
      (hs : Reached taken s)
      (hspares : ∀ command, turn = .command command →
        command.SparesFlags taken s.machine.cpu.registers.flags) :
      Reached taken (s.take turn).2
  /-- Moves the processor to a memory of another kind. -/
  | withMemory {M N : Type} [Bus M] [Bus N] {taken : List State} {s : Emulator M} (mem : N)
      (hs : Reached taken s) : Reached taken (s.mapMachine (·.withMemory mem))
  /-- Logs to another journal. -/
  | withJournal {M : Type} [Bus M] {taken : List State} {s : Emulator M} (journal : Journal)
      (hs : Reached taken s) : Reached taken { s with journal }

namespace Emulator

/-- A command that does not write to the flags keeps B clear and U set. -/
theorem settled_obey {taken : List State} {s : Emulator M} {command : Command M}
    (hspares : command.SparesFlags taken s.machine.cpu.registers.flags)
    (hs : s.machine.cpu.registers.flags.Settled)
    (htaken : ∀ state ∈ taken, state.registers.flags.Settled) :
    (s.obey command).2.machine.cpu.registers.flags.Settled := by
  cases hrestored : command.restored? with
  | some state =>
    have hafter : (s.obey command).2 = s.mapMachine (·.restore state) :=
      show Call.after ⟨command, s⟩ = _ from Call.after_of_restored hrestored
    rw [hafter]
    have hstate := htaken state (hspares.mem_of_restored hrestored)
    exact ⟨hstate.b, hstate.u⟩
  | none =>
    cases command with
    | step => exact settled_step hs
    | reset => exact ⟨rfl, rfl⟩
    | setRegisters registers pc =>
      have hflags : registers.flags = s.machine.cpu.registers.flags := hspares
      exact hflags ▸ hs
    | restore => cases hrestored
    | load saved =>
      have hafter : (s.obey (.load saved)).2 = s :=
        show Call.after ⟨.load saved, s⟩ = _ from Call.after_of_refused hrestored
      rw [hafter]
      exact hs
    | _ => exact ⟨hs.b, hs.u⟩

/-- A turn in which a host does not write to the flags keeps B clear and U set. -/
theorem settled_take {taken : List State} {s : Emulator M} {turn : Turn M}
    (hspares : ∀ command, turn = .command command →
      command.SparesFlags taken s.machine.cpu.registers.flags)
    (hs : s.machine.cpu.registers.flags.Settled)
    (htaken : ∀ state ∈ taken, state.registers.flags.Settled) :
    (s.take turn).2.machine.cpu.registers.flags.Settled := by
  let P (e : Emulator M) : Prop := e.machine.cpu.registers.flags.Settled
  have hstep (e : Emulator M) (he : P e) : P e.step.2 := settled_step he
  cases turn with
  | command command => exact settled_obey (hspares command rfl) hs htaken
  | run budget => exact run_invariant hstep (fun _ _ he ↦ ⟨he.b, he.u⟩) budget hs
  | runSteps budget => exact Processor.runFrom_invariant hstep 0 budget hs

end Emulator

/-- In whatever state an emulator is reached, B is clear and U is set, there and in the states that
were taken on the way. -/
theorem Reached.settled {taken : List State} {s : Emulator M} (hreached : Reached taken s) :
    s.machine.cpu.registers.flags.Settled ∧ ∀ state ∈ taken, state.registers.flags.Settled := by
  induction hreached with
  | powerOn => exact ⟨⟨rfl, rfl⟩, List.forall_mem_nil _⟩
  | snapshot _ ih => exact ⟨ih.1, List.forall_mem_cons.mpr ih⟩
  | turn turn _ hspares ih => exact ⟨Emulator.settled_take hspares ih.1 ih.2, ih.2⟩
  | withMemory mem _ ih => exact ih
  | withJournal journal _ ih => exact ih

/-! ### What a step writes -/

namespace Mnemonic

end Mnemonic

namespace StatusWrites

variable {m : Machine M}

end StatusWrites

namespace Emulator

end Emulator

end Mos6502
