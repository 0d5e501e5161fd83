import Mos6502.Bus
import Mos6502.Mode

/-!
Operands: what an instruction works on once its operand bytes have been read and its pointers
followed. `Operand.resolve` reads exactly the operand bytes of the mode, in order, then the pointer
bytes, and says whether indexing left the page of the base address. Addresses on page zero stay
there, indices included; the high byte of a pointer comes from the pointer's own page.
-/

set_option autoImplicit false

namespace Mos6502

/-- The registers that can be added to an address. -/
inductive Index where
  | x
  | y
  deriving DecidableEq, Repr

/-- What an instruction works on. -/
inductive Operand where
  | implied
  | accumulator
  | immediate (value : UInt8)
  | absolute (address : UInt16) (index : Option Index)
  | zeroPage (address : UInt8) (index : Option Index)
  /-- The word that a jump's pointer holds. -/
  | indirect (target : UInt16)
  /-- The address found through a pointer on page zero. -/
  | indirectResolved (address : UInt16)
  | relative (target : UInt16)
  deriving DecidableEq, Repr

/-- Where a byte is found. -/
inductive Source where
  | value (byte : UInt8)
  | cell (address : UInt16)
  deriving DecidableEq, Repr

namespace Operand

/-- The name of the kind of an operand. -/
def kind : Operand → String
  | implied => "implied"
  | accumulator => "accumulator"
  | immediate _ => "immediate"
  | absolute _ _ => "absolute"
  | zeroPage _ _ => "zero page"
  | indirect _ => "indirect"
  | indirectResolved _ => "indirect resolved"
  | relative _ => "relative"

/-- The address of the cell that an operand refers to, if it refers to one. -/
def address? : Operand → Option UInt16
  | absolute address _ => some address
  | zeroPage address _ => some (word address 0)
  | indirectResolved address => some address
  | _ => none

/-- Where an instruction finds a byte to compute with: in the instruction itself or in a cell. -/
def source? : Operand → Option Source
  | immediate value => some (.value value)
  | operand => operand.address?.map .cell

/-- Where a jump goes: to an address given in full or through a pointer. An indexed address is no
jump target. -/
def jumpTarget? : Operand → Option UInt16
  | absolute target none => some target
  | indirect target => some target
  | _ => none

/-- Where a call goes: to an address given in full. -/
def callTarget? : Operand → Option UInt16
  | absolute target none => some target
  | _ => none

/-- Where a branch goes if it is taken. -/
def branchTarget? : Operand → Option UInt16
  | relative target => some target
  | _ => none

end Operand

/-- Whether two addresses lie on different pages. -/
def crossesPage (base effective : UInt16) : Bool :=
  highByte base != highByte effective

/-- An operand, and whether indexing left the page of its base address. -/
structure Resolved where
  operand : Operand
  crossed : Bool := false
  deriving DecidableEq, Repr

namespace Resolved

/-- An address found by indexing a base. -/
def indexed (make : UInt16 → Operand) (base : UInt16) (index : UInt8) : Resolved :=
  let effective := base + word index 0
  ⟨make effective, crossesPage base effective⟩

end Resolved

namespace Operand

/-- Resolves the operand of the instruction at `pc`: reads its operand bytes, applies the index
registers and follows the pointer, if the mode has one. -/
def resolve {M : Type} [Bus M] (mode : Mode) (pc : UInt16) (x y : UInt8) (mem : M) :
    Resolved × M :=
  match mode with
  | .implied => (⟨.implied, false⟩, mem)
  | .accumulator => (⟨.accumulator, false⟩, mem)
  | .immediate =>
    let (value, mem) := Bus.read mem (pc + 1)
    (⟨.immediate value, false⟩, mem)
  | .zeroPage =>
    let (base, mem) := Bus.read mem (pc + 1)
    (⟨.zeroPage base none, false⟩, mem)
  | .zeroPageX =>
    let (base, mem) := Bus.read mem (pc + 1)
    (⟨.zeroPage (base + x) (some .x), false⟩, mem)
  | .zeroPageY =>
    let (base, mem) := Bus.read mem (pc + 1)
    (⟨.zeroPage (base + y) (some .y), false⟩, mem)
  | .relative =>
    let (offset, mem) := Bus.read mem (pc + 1)
    (⟨.relative (pc + 2 + signExtend offset), false⟩, mem)
  | .absolute =>
    let (address, mem) := Bus.readWord mem (pc + 1)
    (⟨.absolute address none, false⟩, mem)
  | .absoluteX =>
    let (base, mem) := Bus.readWord mem (pc + 1)
    (.indexed (.absolute · (some .x)) base x, mem)
  | .absoluteY =>
    let (base, mem) := Bus.readWord mem (pc + 1)
    (.indexed (.absolute · (some .y)) base y, mem)
  | .indirect =>
    let (pointer, mem) := Bus.readWord mem (pc + 1)
    let (target, mem) := Bus.readPointer mem pointer
    (⟨.indirect target, false⟩, mem)
  | .indirectX =>
    let (base, mem) := Bus.read mem (pc + 1)
    let (address, mem) := Bus.readPointer mem (word (base + x) 0)
    (⟨.indirectResolved address, false⟩, mem)
  | .indirectY =>
    let (pointer, mem) := Bus.read mem (pc + 1)
    let (base, mem) := Bus.readPointer mem (word pointer 0)
    (.indexed .indirectResolved base y, mem)

end Operand

end Mos6502
