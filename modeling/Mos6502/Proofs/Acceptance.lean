import Mos6502.Step

/-!
Every entry of the decode table can be performed. What a mode resolves to depends on memory and on
the registers, but its kind does not: a mode names a cell, or a byte in the instruction, or a
target, whatever the bytes after the opcode are. `Mode.suits` says which kinds an action can work
on, the table pairs each mnemonic with modes that suit it, and so `isSome_perform?_of_decode` holds
for every program counter, index register and memory.

A composed instruction works twice on one operand. `isSome_perform?_halves` says that both of its
halves accept the operand, so that the first half is never left without the second.
-/

set_option autoImplicit false

namespace Mos6502

namespace Mode

/-- Whether the operands of a mode name a cell of memory. -/
def namesCell : Mode → Bool
  | .zeroPage | .zeroPageX | .zeroPageY | .absolute | .absoluteX | .absoluteY | .indirectX
  | .indirectY => true
  | .implied | .accumulator | .immediate | .relative | .indirect => false

/-- Whether an action can work on the operands of a mode. -/
def suits (mode : Mode) : Action → Bool
  | .consume _ => mode == .immediate || mode.namesCell
  | .store _ | .changeThenConsume _ _ => mode.namesCell
  | .change _ => mode == .accumulator || mode.namesCell
  | .branch _ => mode == .relative
  | .jump => mode == .absolute || mode == .indirect
  | .call => mode == .absolute
  | .inherent _ | .touch | .endCall | .softwareBreak | .endInterrupt | .push _ | .pull _ => true

end Mode

namespace Operand

variable {M : Type} [Bus M]

/-- A mode that names a cell resolves to an operand with an address. -/
theorem isSome_address?_resolve {mode : Mode} (hcell : mode.namesCell) (pc : UInt16) (x y : UInt8)
    (mem : M) : (resolve mode pc x y mem).1.operand.address?.isSome := by
  cases mode <;> first | rfl | exact absurd hcell (by decide)

/-- A mode that names a cell or carries a byte resolves to an operand with a byte to compute with.
-/
theorem isSome_source?_resolve {mode : Mode} (hmode : mode == .immediate || mode.namesCell)
    (pc : UInt16) (x y : UInt8) (mem : M) :
    (resolve mode pc x y mem).1.operand.source?.isSome := by
  cases mode <;> first | rfl | exact absurd hmode (by decide)

end Operand

namespace Action

variable {M : Type} [Bus M]

/-- An action can be performed with every operand that a suitable mode resolves to. -/
theorem isSome_perform?_of_suits {mode : Mode} {action : Action} (hsuits : mode.suits action)
    (pc : UInt16) (x y : UInt8) (mem : M) (next : UInt16) :
    (action.perform? (M := M) (Operand.resolve mode pc x y mem).1.operand next).isSome := by
  cases action with
  | inherent | endCall | softwareBreak | endInterrupt | push | pull => rfl
  | consume =>
    rw [perform?, Option.isSome_map]
    exact Operand.isSome_source?_resolve hsuits pc x y mem
  | store | changeThenConsume =>
    rw [perform?, Option.isSome_map]
    exact Operand.isSome_address?_resolve hsuits pc x y mem
  | change cell =>
    rw [perform?]
    split
    · rfl
    · rename_i hoperand
      rw [Option.isSome_map]
      have hmode : mode ≠ .accumulator := by
        rintro rfl
        exact hoperand rfl
      have hcell : mode.namesCell := by simpa [Mode.suits, hmode] using hsuits
      exact Operand.isSome_address?_resolve hcell pc x y mem
  | touch =>
    rw [perform?]
    split <;> rfl
  | branch =>
    obtain rfl : mode = .relative := by simpa [Mode.suits] using hsuits
    rfl
  | jump =>
    obtain rfl | rfl : mode = .absolute ∨ mode = .indirect := by simpa [Mode.suits] using hsuits
    · rfl
    · rfl
  | call =>
    obtain rfl : mode = .absolute := by simpa [Mode.suits] using hsuits
    rfl

end Action

namespace Opcode

/-- What is checked of each entry of the table holds of whatever a byte decodes to. -/
theorem of_decode (check : Opcode → Bool)
    (htable : ∀ n : Fin UInt8.size, (decode (UInt8.ofNat n)).all check)
    {byte : UInt8} {op : Opcode} (hdecode : decode byte = some op) : check op := by
  have hbyte := htable ⟨byte.toNat, byte.toNat_lt⟩
  rwa [UInt8.ofNat_toNat, hdecode] at hbyte

/-- The table pairs each mnemonic with modes that suit what it does. -/
theorem suits_of_decode {byte : UInt8} {op : Opcode} (hdecode : decode byte = some op) :
    op.mode.suits op.mnemonic.action :=
  of_decode (fun op ↦ op.mode.suits op.mnemonic.action) (by decide +kernel) hdecode

variable {M : Type} [Bus M]

/-- Every entry of the table can be performed with every operand that its mode resolves to. -/
theorem isSome_perform?_of_decode {byte : UInt8} {op : Opcode} (hdecode : decode byte = some op)
    (pc : UInt16) (x y : UInt8) (mem : M) (next : UInt16) :
    (op.mnemonic.action.perform? (M := M)
      (Operand.resolve op.mode pc x y mem).1.operand next).isSome :=
  Action.isSome_perform?_of_suits (suits_of_decode hdecode) pc x y mem next

/-- Both halves of a composed entry accept the operand that its mode resolves to. -/
theorem isSome_perform?_halves {byte : UInt8} {op : Opcode} (hdecode : decode byte = some op)
    {cell : CellOp} {compute : ByteOp}
    (hcomposed : op.mnemonic.action = .changeThenConsume cell compute)
    (pc : UInt16) (x y : UInt8) (mem : M) (next : UInt16) :
    let operand := (Operand.resolve op.mode pc x y mem).1.operand
    ((Action.change cell).perform? (M := M) operand next).isSome ∧
      ((Action.consume compute).perform? (M := M) operand next).isSome := by
  have hcell : op.mode.namesCell := by
    have hsuits := suits_of_decode hdecode
    rwa [hcomposed] at hsuits
  constructor
  · exact Action.isSome_perform?_of_suits (by simp [Mode.suits, hcell]) pc x y mem next
  · exact Action.isSome_perform?_of_suits (by simp [Mode.suits, hcell]) pc x y mem next

end Opcode

end Mos6502
