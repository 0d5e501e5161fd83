import Mos6502.Proofs.Halting
import Mos6502.Proofs.Quiet

/-!
Programs in memory. A `Line` is a documented instruction written out with its operand; its bytes are
those that the listing of instructions gives it, and a machine is `Before` a program if the bytes of
its lines lie at the program counter and no interrupt is due. Such a machine executes the first line,
whatever else is in memory. If the instruction goes on to the next one, what it does to registers and
memory is its `Action.effect?`, and `Machine.Before.step` says that a step does just that.

Code lies in `cellsFrom` an address upwards, wrapping from the last address to the first, and a
machine that has gone on is before the rest of its program as long as those cells are as they were
(`Machine.Before.rest`).
-/

set_option autoImplicit false

namespace Mos6502

open QuietBus (peek)

/-! ### Bytes in memory -/

/-- The addresses from one upwards. -/
def cellsFrom (address : UInt16) : Nat → List UInt16
  | 0 => []
  | count + 1 => address :: cellsFrom (address + 1) count

@[simp] theorem length_cellsFrom (address : UInt16) (count : Nat) :
    (cellsFrom address count).length = count := by
  induction count generalizing address with
  | zero => rfl
  | succ count ih => simp [cellsFrom, ih]

theorem cellsFrom_add (address : UInt16) (first second : Nat) :
    cellsFrom address (first + second) =
      cellsFrom address first ++ cellsFrom (address + UInt16.ofNat first) second := by
  induction first generalizing address with
  | zero => simp [cellsFrom]
  | succ first ih =>
    have hnext : address + 1 + UInt16.ofNat first = address + UInt16.ofNat (first + 1) := by
      rw [UInt16.ofNat_add, UInt16.add_assoc, UInt16.add_comm 1]
      rfl
    rw [Nat.succ_add, cellsFrom, cellsFrom, ih, hnext, List.cons_append]

/-- Each of the addresses lies less than their number above the first. -/
theorem sub_toNat_lt_of_mem_cellsFrom {address cell : UInt16} {count : Nat}
    (hcell : cell ∈ cellsFrom address count) : (cell - address).toNat < count := by
  induction count generalizing address with
  | zero => cases hcell
  | succ count ih =>
    obtain rfl | hrest := List.mem_cons.mp hcell
    · simp
    · have hlater := ih hrest
      have hsub : cell - address = cell - (address + 1) + 1 := by grind
      rw [hsub, UInt16.toNat_add]
      exact Nat.lt_of_le_of_lt (Nat.mod_le _ _) (Nat.succ_lt_succ hlater)

/-- Bytes that do not fill the memory do not come back to where they start. -/
theorem not_mem_cellsFrom_succ {address : UInt16} {count : Nat} (hcount : count < UInt16.size) :
    address ∉ cellsFrom (address + 1) count := by
  intro hwrap
  have hdistance := sub_toNat_lt_of_mem_cellsFrom hwrap
  have hback : address - (address + 1) = 0xFFFF := by grind
  rw [hback] at hdistance
  have hlast : (0xFFFF : UInt16).toNat + 1 = UInt16.size := rfl
  omega

/-- Placing bytes leaves alone what lies elsewhere. -/
theorem Ram.get_load_of_not_mem {ram : Ram} {offset cell : UInt16} {bytes : List UInt8}
    (hcell : cell ∉ cellsFrom offset bytes.length) :
    (ram.load offset bytes).get cell = ram.get cell := by
  induction bytes generalizing ram offset with
  | nil => rfl
  | cons byte rest ih =>
    rw [List.length_cons, cellsFrom, List.mem_cons, not_or] at hcell
    rw [load, ih hcell.2, get_set, if_neg hcell.1]

section Quiet

variable {M : Type} [QuietBus M]

/-- Bytes lie in memory from an address upwards. -/
def Holds (mem : M) (address : UInt16) (bytes : List UInt8) : Prop :=
  (cellsFrom address bytes.length).map (peek mem) = bytes

@[simp] theorem holds_cons {mem : M} {address : UInt16} {byte : UInt8} {rest : List UInt8} :
    Holds mem address (byte :: rest) ↔ peek mem address = byte ∧ Holds mem (address + 1) rest := by
  simp [Holds, cellsFrom]

@[simp] theorem holds_append {mem : M} {address : UInt16} {first second : List UInt8} :
    Holds mem address (first ++ second) ↔
      Holds mem address first ∧ Holds mem (address + UInt16.ofNat first.length) second := by
  rw [Holds, List.length_append, cellsFrom_add, List.map_append]
  constructor
  · intro hboth
    exact List.append_inj hboth (by simp)
  · rintro ⟨hfirst, hsecond⟩
    rw [hfirst, hsecond]

/-- Bytes lie in every memory in which their cells are as they were. -/
theorem Holds.of_agree {mem other : M} {address : UInt16} {bytes : List UInt8}
    (hholds : Holds mem address bytes)
    (hagree : ∀ cell ∈ cellsFrom address bytes.length, peek other cell = peek mem cell) :
    Holds other address bytes :=
  (List.map_congr_left hagree).trans hholds

end Quiet

/-- Bytes that have been placed lie where they were placed, if they fit into the memory. -/
theorem Ram.holds_load {bytes : List UInt8} (hlength : bytes.length ≤ UInt16.size) (ram : Ram)
    (offset : UInt16) : Holds (ram.load offset bytes) offset bytes := by
  induction bytes generalizing ram offset with
  | nil => rfl
  | cons byte rest ih =>
    have hrest : rest.length < UInt16.size := hlength
    refine holds_cons.mpr ⟨?_, ih (Nat.le_of_lt hrest) _ _⟩
    calc (ram.load offset (byte :: rest)).get offset
        = (ram.set offset byte).get offset :=
          get_load_of_not_mem (not_mem_cellsFrom_succ hrest)
      _ = byte := by rw [get_set, if_pos rfl]

/-! ### Lines -/

/-- A documented instruction, written out with its operand. -/
inductive Line where
  | implied (mnemonic : Mnemonic)
  | accumulator (mnemonic : Mnemonic)
  | immediate (mnemonic : Mnemonic) (value : UInt8)
  | absolute (mnemonic : Mnemonic) (address : UInt16)
  deriving DecidableEq, Repr

namespace Line

/-- What the instruction of a line does. -/
def mnemonic : Line → Mnemonic
  | implied mnemonic | accumulator mnemonic | immediate mnemonic _ | absolute mnemonic _ => mnemonic

/-- How the operand of a line is written. -/
def mode : Line → Mode
  | implied _ => .implied
  | accumulator _ => .accumulator
  | immediate _ _ => .immediate
  | absolute _ _ => .absolute

/-- The operand of a line. -/
def operand : Line → Operand
  | implied _ => .implied
  | accumulator _ => .accumulator
  | immediate _ value => .immediate value
  | absolute _ address => .absolute address none

/-- The bytes after the opcode. -/
def operandBytes : Line → List UInt8
  | implied _ | accumulator _ => []
  | immediate _ value => [value]
  | absolute _ address => [lowByte address, highByte address]

/-- The opcode of a line in the listing of documented instructions, if it has one. -/
def opcode? (line : Line) : Option UInt8 :=
  (Instruction.listing.find? fun ins ↦ ins.mnemonic = line.mnemonic && !ins.unofficial).bind
    (·.opcodeFor line.mode)

/-- The bytes of a line. -/
def bytes (line : Line) : List UInt8 :=
  line.opcode?.toList ++ line.operandBytes

theorem length_bytes_le (line : Line) : line.bytes.length ≤ 3 := by
  have hopcode : line.opcode?.toList.length ≤ 1 := by cases line.opcode? <;> simp
  have hoperand : line.operandBytes.length ≤ 2 := by cases line <;> simp [operandBytes]
  rw [bytes, List.length_append]
  omega

end Line

/-- The bytes of a program. -/
def assemble (program : List Line) : List UInt8 :=
  program.flatMap Line.bytes

theorem length_assemble_le (program : List Line) :
    (assemble program).length ≤ 3 * program.length := by
  induction program with
  | nil => exact Nat.le_refl _
  | cons line rest ih =>
    have hline := line.length_bytes_le
    rw [assemble, List.flatMap_cons, List.length_append, ← assemble, List.length_cons]
    omega

namespace Opcode

/-- Every listed encoding is in the decode table. -/
theorem decode_of_listed {ins : Instruction} (hins : ins ∈ Instruction.listing)
    {encoding : Encoding} (hencoding : encoding ∈ ins.encodings) :
    ∃ op, decode encoding.opcode = some op ∧ op.mnemonic = ins.mnemonic ∧
      op.unofficial = ins.unofficial ∧ op.mode = encoding.mode := by
  have hlisting : ∀ ins ∈ Instruction.listing, ∀ encoding ∈ ins.encodings,
      (decode encoding.opcode).any fun op ↦ op.mnemonic = ins.mnemonic ∧
        op.unofficial = ins.unofficial ∧ op.mode = encoding.mode := by decide +kernel
  obtain ⟨op, hdecode, hop⟩ := (Option.any_eq_true _ _).mp (hlisting ins hins encoding hencoding)
  exact ⟨op, hdecode, of_decide_eq_true hop⟩

end Opcode

/-- The opcode of a line decodes to its instruction. -/
theorem Line.decode_opcode? {line : Line} {byte : UInt8} (hopcode : line.opcode? = some byte) :
    ∃ op, Opcode.decode byte = some op ∧ op.mnemonic = line.mnemonic ∧ op.mode = line.mode ∧
      op.unofficial = false := by
  obtain ⟨ins, hfind, hfor⟩ := Option.bind_eq_some_iff.mp hopcode
  obtain ⟨encoding, hencoding, rfl⟩ := Option.map_eq_some_iff.mp hfor
  obtain ⟨op, hdecode, hmnemonic, hofficial, hmode⟩ :=
    Opcode.decode_of_listed (List.mem_of_find?_eq_some hfind)
      (List.mem_of_find?_eq_some hencoding)
  have hins : ins.mnemonic = line.mnemonic ∧ ins.unofficial = false := by
    simpa using List.find?_some hfind
  have hline : encoding.mode = line.mode := by simpa using List.find?_some hencoding
  exact ⟨op, hdecode, hmnemonic.trans hins.1, hmode.trans hline, hofficial.trans hins.2⟩

/-- The code of the rest of a program follows that of its first line. -/
theorem mem_cellsFrom_assemble {line : Line} {rest : List Line} {address cell : UInt16}
    (hcell : cell ∈ cellsFrom (address + UInt16.ofNat line.bytes.length) (assemble rest).length) :
    cell ∈ cellsFrom address (assemble (line :: rest)).length := by
  have hlength : (assemble (line :: rest)).length = line.bytes.length + (assemble rest).length :=
    List.length_append
  rw [hlength, cellsFrom_add]
  exact List.mem_append_right _ hcell

/-! ### Going on from line to line -/

namespace Action

variable {M : Type} [Bus M]

/-- What an action does to registers and memory, if it then goes on to the next instruction. -/
def effect? (action : Action) (operand : Operand) : Option (Machine M → Machine M) :=
  match action with
  | .inherent compute => some (·.mapRegisters compute)
  | .consume compute => operand.source?.map (Machine.consume compute)
  | .store value => operand.address?.map fun address m ↦ m.write address (value m.cpu.registers)
  | .change cell =>
    if operand = .accumulator then some (·.mapRegisters (.applyA cell))
    else operand.address?.map (Machine.changeCell cell)
  | .changeThenConsume cell compute =>
    operand.address?.map fun address m ↦ (m.changeCell cell address).consume compute (.cell address)
  | .touch => some fun m ↦ operand.address?.elim m fun address ↦ (m.read address).2
  | .push value => some fun m ↦ m.push (value m.cpu.registers)
  | .pull compute => some fun m ↦ m.pop.2.mapRegisters fun r ↦ compute r m.pop.1
  | .branch _ | .jump | .call | .endCall | .softwareBreak | .endInterrupt => none

/-- An action that goes on to the next instruction has its effect, and goes on. -/
theorem perform?_of_effect? {action : Action} {operand : Operand} {effect : Machine M → Machine M}
    (heffect : action.effect? operand = some effect) (next : UInt16) :
    action.perform? operand next = some fun m ↦ { machine := (effect m).jump next } := by
  cases action with
  | inherent | push | pull =>
    cases heffect
    rfl
  | consume | store | changeThenConsume =>
    obtain ⟨found, hfound, rfl⟩ := Option.map_eq_some_iff.mp heffect
    rw [perform?, hfound]
    rfl
  | change cell =>
    by_cases hoperand : operand = .accumulator
    · rw [effect?, if_pos hoperand] at heffect
      cases heffect
      rw [perform?, if_pos hoperand]
    · rw [effect?, if_neg hoperand] at heffect
      obtain ⟨address, haddress, rfl⟩ := Option.map_eq_some_iff.mp heffect
      rw [perform?, if_neg hoperand, haddress]
      rfl
  | touch =>
    cases heffect
    rw [perform?]
    cases operand.address? with
    | none => rfl
    | some address => rfl
  | branch | jump | call | endCall | softwareBreak | endInterrupt => cases heffect

end Action

namespace Machine

variable {M : Type}

/-- The machine once an instruction has been carried out: it goes on at the next one, and has charged
what the instruction cost. -/
def goOn (next : UInt16) (cost : Nat) (m : Machine M) : Machine M :=
  (m.jump next).mapState (.charge cost)

variable [QuietBus M]

/-- A step that executes an instruction which goes on to the next one has its effect, and goes
on. -/
theorem step_of_effect? {m : Machine M} {op : Opcode} (hop : m.upcoming? = some op)
    {effect : Machine M → Machine M}
    (heffect : op.mnemonic.action.effect? (m.resolved op).operand = some effect) (watch : Bool) :
    ∃ cost, (m.step watch).result = .ok cost ∧
      (m.step watch).machine = (effect m).goOn (m.following op) cost.val := by
  obtain ⟨perform, cost, hperform, hresult, hmachine⟩ := performed_of_upcoming? hop watch
  rw [Action.perform?_of_effect? heffect] at hperform
  cases hperform
  exact ⟨cost, hresult, hmachine⟩

/-- A machine is about to execute a program that lies at its program counter. -/
structure Before (program : List Line) (m : Machine M) : Prop where
  documented : ∀ line ∈ program, line.opcode?.isSome
  uninterrupted : m.cpu.due? = none
  holds : Holds m.mem m.cpu.pc (assemble program)

namespace Before

variable {m : Machine M} {line : Line} {program : List Line}

/-- The first line of a program is the instruction that comes up, and has the operand that is written
there. -/
theorem upcoming (hbefore : m.Before (line :: program)) :
    ∃ op, m.upcoming? = some op ∧ op.mnemonic = line.mnemonic ∧
      (m.resolved op).operand = line.operand ∧
      m.following op = m.cpu.pc + UInt16.ofNat line.bytes.length := by
  obtain ⟨byte, hbyte⟩ := Option.isSome_iff_exists.mp
    (hbefore.documented line List.mem_cons_self)
  obtain ⟨op, hdecode, hmnemonic, hmode, hofficial⟩ := Line.decode_opcode? hbyte
  have hholds : Holds m.mem m.cpu.pc line.bytes := (holds_append.mp hbefore.holds).1
  have hbytes : line.bytes = byte :: line.operandBytes := by rw [Line.bytes, hbyte]; rfl
  rw [hbytes, holds_cons] at hholds
  obtain ⟨hopcode, hoperand⟩ := hholds
  have hunder : Opcode.decodeUnder m.cpu.options m.opcodeByte = some op := by
    rw [opcodeByte_quiet, hopcode, Opcode.decodeUnder, hdecode]
    simp [hofficial]
  refine ⟨op, (upcoming?_of_due? hbefore.uninterrupted).trans hunder, hmnemonic, ?_, ?_⟩
  · rw [resolved, fetched_quiet, hmode]
    cases line with
    | implied | accumulator => rfl
    | immediate mnemonic value =>
      have hvalue : peek m.mem (m.cpu.pc + 1) = value := (holds_cons.mp hoperand).1
      simp [Line.mode, Line.operand, Operand.resolve, onBus, QuietBus.read_eq, hvalue]
    | absolute mnemonic address =>
      have hlow := (holds_cons.mp hoperand).1
      have hhigh := (holds_cons.mp (holds_cons.mp hoperand).2).1
      simp [Line.mode, Line.operand, Operand.resolve, onBus, Bus.readWord_quiet, hlow, hhigh]
  · rw [following, Opcode.size, hmode, hbytes]
    cases line <;> rfl

/-- A step executes the first line of a program: if the line goes on to the next one, the step has
its effect and goes on. -/
theorem step (hbefore : m.Before (line :: program)) {effect : Machine M → Machine M}
    (heffect : line.mnemonic.action.effect? line.operand = some effect) (watch : Bool) :
    ∃ cost, (m.step watch).result = .ok cost ∧
      (m.step watch).machine =
        (effect m).goOn (m.cpu.pc + UInt16.ofNat line.bytes.length) cost.val := by
  obtain ⟨op, hop, hmnemonic, hoperand, hfollowing⟩ := hbefore.upcoming
  rw [← hmnemonic, ← hoperand] at heffect
  obtain ⟨cost, hresult, hmachine⟩ := step_of_effect? hop heffect watch
  exact ⟨cost, hresult, hfollowing ▸ hmachine⟩

/-- After its first line, a machine is before the rest of the program, if no interrupt has become due
and the code is as it was. -/
theorem rest (hbefore : m.Before (line :: program)) {after : Machine M}
    (hdue : after.cpu.due? = none)
    (hcode : ∀ cell ∈ cellsFrom m.cpu.pc (assemble (line :: program)).length,
      peek after.mem cell = peek m.mem cell) (cost : Nat) :
    (after.goOn (m.cpu.pc + UInt16.ofNat line.bytes.length) cost).Before program where
  documented other hother := hbefore.documented other (List.mem_cons_of_mem line hother)
  uninterrupted := hdue
  holds := by
    have hholds : Holds m.mem (m.cpu.pc + UInt16.ofNat line.bytes.length) (assemble program) :=
      (holds_append.mp hbefore.holds).2
    exact hholds.of_agree fun cell hcell ↦ hcode cell (mem_cellsFrom_assemble hcell)

end Before

end Machine

end Mos6502
