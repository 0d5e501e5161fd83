import Mos6502.Board
import Mos6502.Proofs.Computations
import Mos6502.Proofs.Programs

/-!
Undocumented instructions that are composed of documented ones. `Opcode.parts?` writes out what such
an instruction is composed of: a program of one or two lines for the operand that it works on. The
instruction does in one step what that program does in as many steps as it has lines
(`Emulator.composed_eq_parts`).

The program has to lie somewhere, so the two machines cannot hold the same memory. They hold the
`SameData`: the same registers, and the same memory outside the code of the program. The effects of
the lines act on data alone (`ActsOnData`), and a program whose effects do so keeps to the data along
all of its lines (`Effects.afterSteps`).
-/

set_option autoImplicit false

namespace Mos6502

open QuietBus (peek)

namespace Operand

/-- The byte that an operand carries in the instruction itself. -/
def immediate? : Operand → Option UInt8
  | .immediate value => some value
  | _ => none

theorem eq_of_immediate? {operand : Operand} {value : UInt8}
    (hvalue : operand.immediate? = some value) : operand = .immediate value := by
  cases operand with
  | immediate =>
    cases hvalue
    rfl
  | _ => cases hvalue

/-- An operand that names a cell has its byte there. -/
theorem source?_of_address? {operand : Operand} {address : UInt16}
    (haddress : operand.address? = some address) : operand.source? = some (.cell address) := by
  cases operand with
  | immediate => cases haddress
  | _ => exact congrArg (Option.map Source.cell) haddress

end Operand

namespace Opcode

/-- A change of the operand's cell and a computation with it, in absolute mode. -/
def changeAndCompute? (change compute : Mnemonic) (operand : Operand) : Option (List Line) :=
  operand.address?.map fun address ↦ [.absolute change address, .absolute compute address]

/-- The documented instructions that an undocumented one is composed of, written out for its operand:
in absolute mode if it works on a cell. -/
def parts? (op : Opcode) (operand : Operand) : Option (List Line) :=
  match op.mnemonic with
  | .slo => changeAndCompute? .asl .ora operand
  | .rla => changeAndCompute? .rol .and operand
  | .sre => changeAndCompute? .lsr .eor operand
  | .rra => changeAndCompute? .ror .adc operand
  | .dcp => changeAndCompute? .dec .cmp operand
  | .isc => changeAndCompute? .inc .sbc operand
  | .lax => operand.address?.map fun address ↦ [.absolute .lda address, .implied .tax]
  | .alr => operand.immediate?.map fun value ↦ [.immediate .and value, .accumulator .lsr]
  | .sbc => if op.unofficial then operand.immediate?.map fun value ↦ [.immediate .sbc value] else none
  | _ => none

/-- An undocumented instruction is composed of documented ones. -/
def Composed (op : Opcode) : Prop :=
  op.mnemonic ∈ [.slo, .rla, .sre, .rra, .dcp, .isc, .lax, .alr] ∨
    op.mnemonic = .sbc ∧ op.unofficial = true

instance : DecidablePred Composed :=
  fun _ ↦ inferInstanceAs (Decidable (_ ∨ _))

end Opcode

namespace Machine

variable {M : Type} [QuietBus M]

@[simp] theorem mem_consume_quiet (compute : ByteOp) (source : Source) (m : Machine M) :
    (m.consume compute source).mem = m.mem := by
  cases source with
  | value byte => rfl
  | cell address => exact Bus.snd_read_quiet ..

end Machine

variable {M : Type} [CellBus M]

/-! ### Data and code -/

/-- Two machines hold the same data, where some cells are code: their registers are the same, their
arithmetic is, and so is their memory outside the code, with its protection. -/
structure SameData (code : List UInt16) (m n : Machine M) : Prop where
  registers : m.cpu.registers = n.cpu.registers
  decimalMode : m.cpu.options.decimalMode = n.cpu.options.decimalMode
  peek : ∀ cell ∉ code, peek m.mem cell = peek n.mem cell
  guarded : ∀ cell ∉ code, CellBus.guarded m.mem cell = CellBus.guarded n.mem cell

/-- An effect acts on data alone: it does the same to machines that hold the same data, leaves the
code as it is, and does not let an interrupt become due. -/
structure ActsOnData (code : List UInt16) (effect : Machine M → Machine M) : Prop where
  sameData : ∀ {m n}, SameData code m n → SameData code (effect m) (effect n)
  peek : ∀ m, ∀ cell ∈ code, QuietBus.peek (effect m).mem cell = QuietBus.peek m.mem cell
  due? : ∀ m, (effect m).cpu.due? = m.cpu.due?

namespace SameData

variable {code : List UInt16} {m n : Machine M}

/-- It does not matter where a machine goes on and what it has charged. -/
theorem goOn_left (hsame : SameData code m n) (next : UInt16) (cost : Nat) :
    SameData code (m.goOn next cost) n :=
  { hsame with }

theorem goOn_right (hsame : SameData code m n) (next : UInt16) (cost : Nat) :
    SameData code m (n.goOn next cost) :=
  { hsame with }

end SameData

namespace ActsOnData

variable {code : List UInt16}

theorem mapRegisters {compute : Registers → Registers}
    (hcontrol : ∀ r, (compute r).flags.SameControl r.flags) :
    ActsOnData code (Machine.mapRegisters (M := M) compute) where
  sameData hsame :=
    { registers := congrArg compute hsame.registers
      decimalMode := hsame.decimalMode
      peek := hsame.peek
      guarded := hsame.guarded }
  peek _ _ _ := rfl
  due? m := State.due?_of_sameControl rfl (hcontrol m.cpu.registers)

/-- A computation with a byte that is not code acts on data. -/
theorem consume {mnemonic : Mnemonic} {compute : ByteOp}
    (hcompute : mnemonic.action.compute? = some compute) {source : Source}
    (hsource : ∀ address, source = .cell address → address ∉ code) :
    ActsOnData code (Machine.consume (M := M) compute source) where
  sameData {m n} hsame := by
    have hbyte : source.byte m = source.byte n := by
      cases source with
      | value byte => rfl
      | cell address => simpa [Source.byte] using hsame.peek address (hsource address rfl)
    exact
      { registers := by simp [hbyte, hsame.registers, hsame.decimalMode]
        decimalMode := by simp [hsame.decimalMode]
        peek := by simpa using hsame.peek
        guarded := by simpa using hsame.guarded }
  peek m cell _ := by rw [Machine.mem_consume_quiet]
  due? m := by
    rw [Machine.cpu_consume]
    exact State.due?_of_sameControl rfl (Mnemonic.sameControl hcompute _ _ _)

/-- A computation with a byte in the instruction acts on data. -/
theorem consumeValue {mnemonic : Mnemonic} {compute : ByteOp}
    (hcompute : mnemonic.action.compute? = some compute) (value : UInt8) :
    ActsOnData code (Machine.consume (M := M) compute (.value value)) :=
  consume hcompute (by rintro _ ⟨⟩)

/-- A computation with the byte of a cell that is not code acts on data. -/
theorem consumeCell {mnemonic : Mnemonic} {compute : ByteOp}
    (hcompute : mnemonic.action.compute? = some compute) {address : UInt16}
    (haddress : address ∉ code) : ActsOnData code (Machine.consume (M := M) compute (.cell address)) :=
  consume hcompute (by rintro _ ⟨⟩; exact haddress)

/-- A change of a cell that is not code acts on data. -/
theorem changeCell (cell : CellOp) {address : UInt16} (haddress : address ∉ code) :
    ActsOnData code (Machine.changeCell (M := M) cell address) where
  sameData {m n} hsame := by
    have hbyte := hsame.peek address haddress
    exact
      { registers := by simp [hbyte, hsame.registers]
        decimalMode := by simp [hsame.decimalMode]
        peek := by
          intro other hother
          simp [CellBus.peek_write, hbyte, hsame.registers, hsame.peek other hother,
            hsame.guarded address haddress]
        guarded := by
          intro other hother
          simp [CellBus.guarded_write, hsame.guarded other hother] }
  peek m other hother := by
    have hne : other ≠ address := fun hsame ↦ haddress (hsame ▸ hother)
    simp [CellBus.peek_write, hne]
  due? m := State.due?_of_sameControl rfl (Registers.sameControl_applyCell ..)

end ActsOnData

/-! ### Programs that act on data -/

/-- A program as a whole has an effect on data: that of its lines, one after the other. -/
inductive Effects (code : List UInt16) : List Line → (Machine M → Machine M) → Prop
  | nil : Effects code [] id
  | cons {line : Line} {rest : List Line} {effect later : Machine M → Machine M}
      (heffect : line.mnemonic.action.effect? line.operand = some effect)
      (hacts : ActsOnData code effect) (hrest : Effects code rest later) :
      Effects code (line :: rest) (later ∘ effect)

/-- The steps of a program that acts on data all succeed, and have its effect on the data. -/
theorem Effects.afterSteps {code : List UInt16} {program : List Line}
    {effect : Machine M → Machine M} (heffects : Effects code program effect) {m : Machine M}
    {t : Emulator M} (hbefore : t.machine.Before program)
    (hcode : ∀ cell ∈ cellsFrom t.machine.cpu.pc (assemble program).length, cell ∈ code)
    (hsame : SameData code m t.machine) :
    (∀ count < program.length, ∃ cost, (t.afterSteps count).step.1 = .ok cost) ∧
      SameData code (effect m) (t.afterSteps program.length).machine := by
  induction heffects generalizing m t with
  | nil => exact ⟨fun _ hcount ↦ absurd hcount (Nat.not_lt_zero _), hsame⟩
  | @cons line rest effect later heffect hacts _ ih =>
    obtain ⟨cost, hresult, hmachine⟩ := hbefore.step heffect t.watched
    have hdue : (effect t.machine).cpu.due? = none :=
      (hacts.due? t.machine).trans hbefore.uninterrupted
    have hrest := hbefore.rest hdue (fun cell hcell ↦ hacts.peek t.machine cell (hcode cell hcell))
      cost.val
    rw [← hmachine, ← Emulator.machine_step] at hrest
    have hpc : t.step.2.machine.cpu.pc = t.machine.cpu.pc + UInt16.ofNat line.bytes.length := by
      rw [Emulator.machine_step, hmachine]
      rfl
    have hnext : SameData code (effect m) t.step.2.machine := by
      rw [Emulator.machine_step, hmachine]
      exact (hacts.sameData hsame).goOn_right _ _
    obtain ⟨hsteps, hlast⟩ := ih hrest
      (fun cell hcell ↦ hcode cell (mem_cellsFrom_assemble (hpc ▸ hcell))) hnext
    refine ⟨fun count hcount ↦ ?_, hlast⟩
    cases count with
    | zero => exact ⟨cost, hresult⟩
    | succ count => exact hsteps count (Nat.lt_of_succ_lt_succ hcount)

/-! ### Composed instructions -/

namespace Opcode

variable {code : List UInt16} {operand : Operand} {program : List Line}

/-- A change of a cell and then a computation with it is the effect of the two instructions. -/
theorem exists_effects_changeAndCompute {change compute : Mnemonic} {cell : CellOp} {byteOp : ByteOp}
    (hchange : change.action = .change cell) (hcompute : compute.action = .consume byteOp)
    (hparts : changeAndCompute? change compute operand = some program)
    (hcode : ∀ address, operand.address? = some address → address ∉ code) :
    ∃ effect : Machine M → Machine M,
      (Action.changeThenConsume cell byteOp).effect? operand = some effect ∧
        Effects code program effect := by
  obtain ⟨address, haddress, rfl⟩ := Option.map_eq_some_iff.mp hparts
  have hconsume : compute.action.compute? = some byteOp := by rw [hcompute]; rfl
  refine ⟨(id ∘ Machine.consume byteOp (.cell address)) ∘ Machine.changeCell cell address, ?_, ?_⟩
  · rw [Action.effect?, haddress]
    rfl
  · refine .cons ?_ (.changeCell cell (hcode address haddress))
      (.cons ?_ (.consumeCell hconsume (hcode address haddress)) .nil)
    · rw [Line.mnemonic, hchange]
      rfl
    · rw [Line.mnemonic, hcompute]
      rfl

/-- The effect of a composed instruction is that of its parts. -/
theorem exists_effects_of_parts? {op : Opcode} (hparts : op.parts? operand = some program)
    (hcode : ∀ address, operand.address? = some address → address ∉ code) :
    ∃ effect : Machine M → Machine M,
      op.mnemonic.action.effect? operand = some effect ∧ Effects code program effect := by
  rw [parts?] at hparts
  cases hmnemonic : op.mnemonic with
  | slo | rla | sre | rra | dcp | isc =>
    rw [hmnemonic] at hparts
    exact exists_effects_changeAndCompute rfl rfl hparts hcode
  | lax =>
    rw [hmnemonic] at hparts
    obtain ⟨address, haddress, rfl⟩ := Option.map_eq_some_iff.mp hparts
    have hload : Mnemonic.lda.action.compute? = some (.plain .setA) := rfl
    refine ⟨(id ∘ Machine.mapRegisters fun r ↦ r.setX r.a) ∘
      Machine.consume (.plain .setA) (.cell address), ?_, ?_⟩
    · rw [Mnemonic.action, Action.effect?, Operand.source?_of_address? haddress]
      rfl
    · exact .cons rfl (.consumeCell hload (hcode address haddress))
        (.cons rfl (.mapRegisters fun _ ↦ ⟨rfl, rfl, rfl, rfl⟩) .nil)
  | alr =>
    rw [hmnemonic] at hparts
    obtain ⟨value, hvalue, rfl⟩ := Option.map_eq_some_iff.mp hparts
    obtain rfl := Operand.eq_of_immediate? hvalue
    have hand : Mnemonic.and.action.compute? = some (.plain .andA) := rfl
    refine ⟨(id ∘ Machine.mapRegisters (.applyA .shiftRight)) ∘
      Machine.consume (.plain .andA) (.value value), rfl, ?_⟩
    exact .cons rfl (.consumeValue hand value)
      (.cons rfl (.mapRegisters fun _ ↦ ⟨rfl, rfl, rfl, rfl⟩) .nil)
  | sbc =>
    rw [hmnemonic] at hparts
    obtain ⟨-, hparts⟩ := Option.ite_none_right_eq_some.mp hparts
    obtain ⟨value, hvalue, rfl⟩ := Option.map_eq_some_iff.mp hparts
    obtain rfl := Operand.eq_of_immediate? hvalue
    have hsubtract : Mnemonic.sbc.action.compute? = some .subtract := rfl
    exact ⟨id ∘ Machine.consume .subtract (.value value), rfl,
      .cons rfl (.consumeValue hsubtract value) .nil⟩
  | _ =>
    rw [hmnemonic] at hparts
    cases hparts

omit [CellBus M] in
theorem exists_changeAndCompute? {change compute : Mnemonic} (haddress : operand.address?.isSome)
    (hchange : ∀ address, (Line.absolute change address).opcode?.isSome)
    (hcompute : ∀ address, (Line.absolute compute address).opcode?.isSome) :
    ∃ program, changeAndCompute? change compute operand = some program ∧
      ∀ line ∈ program, line.opcode?.isSome := by
  obtain ⟨address, haddress⟩ := Option.isSome_iff_exists.mp haddress
  refine ⟨_, congrArg (Option.map _) haddress, ?_⟩
  simp [hchange, hcompute]

/-- The modes of composed instructions: two of the instructions work on a byte that they carry, and
the others on a cell. -/
theorem mode_of_composed {byte : UInt8} {op : Opcode} (hdecode : decode byte = some op)
    (hcomposed : op.Composed) :
    if op.mnemonic = .alr ∨ op.mnemonic = .sbc then op.mode = .immediate else op.mode.namesCell := by
  have htable := of_decode (fun op ↦ decide (op.Composed →
    if op.mnemonic = .alr ∨ op.mnemonic = .sbc then op.mode = .immediate else op.mode.namesCell))
    (by decide +kernel) hdecode
  exact of_decide_eq_true htable hcomposed

/-- Every composed instruction has documented parts, whatever its operand comes to. -/
theorem exists_parts? {byte : UInt8} {op : Opcode} (hdecode : decode byte = some op)
    (hcomposed : op.Composed) (pc : UInt16) (x y : UInt8) (mem : M) :
    ∃ program, op.parts? (Operand.resolve op.mode pc x y mem).1.operand = some program ∧
      ∀ line ∈ program, line.opcode?.isSome := by
  have hmode := mode_of_composed hdecode hcomposed
  by_cases hcarried : op.mnemonic = .alr ∨ op.mnemonic = .sbc
  · rw [if_pos hcarried] at hmode
    rw [hmode, parts?]
    obtain halr | hsbc := hcarried
    · rw [halr]
      exact ⟨_, rfl, List.forall_mem_cons.mpr ⟨rfl, List.forall_mem_singleton.mpr rfl⟩⟩
    · have hunofficial : op.unofficial = true := by simpa [Composed, hsbc] using hcomposed
      rw [hsbc, hunofficial]
      exact ⟨_, rfl, List.forall_mem_singleton.mpr rfl⟩
  · rw [if_neg hcarried] at hmode
    have haddress := Operand.isSome_address?_resolve hmode pc x y mem
    rw [parts?]
    cases hmnemonic : op.mnemonic with
    | slo | rla | sre | rra | dcp | isc =>
      exact exists_changeAndCompute? haddress (fun _ ↦ rfl) fun _ ↦ rfl
    | lax =>
      obtain ⟨address, haddress⟩ := Option.isSome_iff_exists.mp haddress
      exact ⟨_, congrArg (Option.map _) haddress,
        List.forall_mem_cons.mpr ⟨rfl, List.forall_mem_singleton.mpr rfl⟩⟩
    | _ => simp [Composed, hmnemonic] at hcomposed hcarried

end Opcode

namespace Emulator

/-- Composed instructions do what they are composed of. The instructions that change a cell and
compute with it are there in seven modes. Whatever the state, a step that executes a composed
instruction succeeds; and if another emulator holds the same data, and is before the program that the
instruction is composed of, with the operand written out and the code clear of the cell that it names,
then the steps of that program succeed as well, and the two hold the same data again. -/
theorem composed_eq_parts :
    (∀ mnemonic ∈ [Mnemonic.slo, .rla, .sre, .rra, .dcp, .isc],
      ∀ mode ∈ [Mode.zeroPage, .zeroPageX, .absolute, .absoluteX, .absoluteY, .indirectX,
          .indirectY],
        ∃ byte op, Opcode.decode byte = some op ∧ op.mnemonic = mnemonic ∧ op.mode = mode) ∧
    ∀ {M : Type} [CellBus M] {s : Emulator M} {op : Opcode},
      s.machine.upcoming? = some op → op.Composed →
        ∃ program, op.parts? (s.machine.resolved op).operand = some program ∧
          (∀ line ∈ program, line.opcode?.isSome) ∧
          ∀ t : Emulator M, t.machine.Before program →
            let code := cellsFrom t.machine.cpu.pc (assemble program).length
            SameData code s.machine t.machine →
              (∀ address, (s.machine.resolved op).operand.address? = some address →
                address ∉ code) →
                (∃ cost, s.step.1 = .ok cost) ∧
                  (∀ count < program.length, ∃ cost, (t.afterSteps count).step.1 = .ok cost) ∧
                  SameData code s.step.2.machine (t.afterSteps program.length).machine := by
  constructor
  · have hlisted : ∀ mnemonic ∈ [Mnemonic.slo, .rla, .sre, .rra, .dcp, .isc],
        ∀ mode ∈ [Mode.zeroPage, .zeroPageX, .absolute, .absoluteX, .absoluteY, .indirectX,
          .indirectY],
          ∃ ins ∈ Instruction.listing, ins.mnemonic = mnemonic ∧
            ∃ encoding ∈ ins.encodings, encoding.mode = mode := by decide +kernel
    intro mnemonic hmnemonic mode hmode
    obtain ⟨ins, hins, rfl, encoding, hencoding, rfl⟩ := hlisted mnemonic hmnemonic mode hmode
    obtain ⟨op, hdecode, hop, -, hsame⟩ := Opcode.decode_of_listed hins hencoding
    exact ⟨encoding.opcode, op, hdecode, hop, hsame⟩
  · intro M _ s op hop hcomposed
    obtain ⟨program, hparts, hdocumented⟩ := Opcode.exists_parts?
      (Machine.decode_of_upcoming? hop) hcomposed s.machine.cpu.pc s.machine.cpu.registers.x
      s.machine.cpu.registers.y s.machine.fetched.mem
    refine ⟨program, hparts, hdocumented, ?_⟩
    intro t hbefore code hsame hcode
    obtain ⟨effect, heffect, heffects⟩ :=
      Opcode.exists_effects_of_parts? (M := M) hparts hcode
    obtain ⟨cost, hresult, hmachine⟩ := Machine.step_of_effect? hop heffect s.watched
    obtain ⟨hsteps, hdata⟩ := heffects.afterSteps hbefore (fun _ hcell ↦ hcell) hsame
    refine ⟨⟨cost, hresult⟩, hsteps, ?_⟩
    rw [machine_step, hmachine]
    exact hdata.goOn_left _ _

/-- An instruction whose cell is the pointer that it finds the cell through, and is protected from
writes. -/
theorem composed_eq_parts_on_protected_pointer :
    let board : PlainBoard :=
      ⟨(Ram.blank.load 0x0200 [0x13, 0x10]).set 0x0010 0x0E, some ⟨0x0010, 0x0010⟩⟩
    let program : List Line := [.absolute .asl 0x0010, .absolute .ora 0x0010]
    let state (pc : UInt16) : State :=
      { State.powerOn with registers := { Registers.powerOn with a := 1, y := 2 }, pc }
    let s : Emulator PlainBoard := ⟨⟨⟨state 0x0200, .both 0, {}⟩, board⟩, {}⟩
    let t : Emulator PlainBoard :=
      ⟨⟨⟨state 0x0300, .both 0, {}⟩, { board with ram := board.ram.load 0x0300 (assemble program) }⟩,
        {}⟩
    (∃ op, s.machine.upcoming? = some op ∧ op.mnemonic = .slo ∧
      (s.machine.resolved op).operand = .indirectResolved 0x0010) ∧
    SameData (cellsFrom 0x0300 6) s.step.2.machine (t.afterSteps 2).machine := by
  intro board program state s t
  have hpeek (cell : UInt16) : peek board cell =
      if cell = 0x0010 then 0x0E else if cell = 0x0201 then 0x10
        else if cell = 0x0200 then 0x13 else 0 := by
    change board.ram.get cell = _
    simp [board, Ram.load, Ram.get_set]
  have hbyte : s.machine.opcodeByte = 0x13 := by
    rw [Machine.opcodeByte_quiet]
    exact (hpeek 0x0200).trans rfl
  obtain ⟨op, hop, hslo, hmode⟩ : ∃ op, Opcode.decodeUnder {} 0x13 = some op ∧
      op.mnemonic = .slo ∧ op.mode = .indirectY := ⟨_, rfl, rfl, rfl⟩
  have hupcoming : s.machine.upcoming? = some op := by
    rw [Machine.upcoming?_of_due? rfl, hbyte]
    exact hop
  have hoperand : (s.machine.resolved op).operand = .indirectResolved 0x0010 := by
    have hpointer : peek s.machine.mem (s.machine.cpu.pc + 1) = 0x10 := (hpeek 0x0201).trans rfl
    have hlow : peek s.machine.mem (word 0x10 0) = 0x0E := (hpeek _).trans rfl
    have hhigh : peek s.machine.mem (nextOnPage (word 0x10 0)) = 0 := (hpeek _).trans rfl
    rw [Machine.resolved, Machine.fetched_quiet, hmode]
    simp only [Machine.onBus, Operand.resolve, QuietBus.read_eq, Bus.readPointer_quiet]
    rw [hpointer, hlow, hhigh]
    rfl
  obtain ⟨parts, hparts, -, hsteps⟩ :=
    composed_eq_parts.2 hupcoming (Or.inl (by rw [hslo]; decide))
  obtain rfl : parts = program := by
    rw [hoperand, Opcode.parts?, hslo] at hparts
    exact (Option.some.inj hparts).symm
  have hlength : (assemble program).length = 6 := rfl
  have hbefore : t.machine.Before program :=
    { documented := List.forall_mem_cons.mpr ⟨rfl, List.forall_mem_singleton.mpr rfl⟩
      uninterrupted := rfl
      holds := Ram.holds_load (by rw [hlength]; decide) board.ram 0x0300 }
  have hsame : SameData (cellsFrom 0x0300 6) s.machine t.machine :=
    { registers := rfl
      decimalMode := rfl
      peek := by
        intro cell hcell
        have hkept : (board.ram.load 0x0300 (assemble program)).get cell = board.ram.get cell :=
          Ram.get_load_of_not_mem (by rwa [hlength])
        exact hkept.symm
      guarded := by
        intro cell _
        change board.rom.any (·.contains cell) = board.rom.any (·.contains cell)
        rfl }
  have hclear : ∀ address, (s.machine.resolved op).operand.address? = some address →
      address ∉ cellsFrom 0x0300 6 := by
    intro address haddress
    rw [hoperand, Operand.address?, Option.some.injEq] at haddress
    subst haddress
    decide
  exact ⟨⟨op, hupcoming, hslo, hoperand⟩, (hsteps t hbefore hsame hclear).2.2⟩

end Emulator

end Mos6502
