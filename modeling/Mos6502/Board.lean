import Mos6502.Ram

/-!
A memory board: plain memory that may have a write-protected range and a device that counts. Writes
into the protected range are dropped. The counter answers each read of its address with the number
of reads before it, modulo 256, so a board with a counter is not a quiet bus; a board without one,
`PlainBoard`, is, and its protected range is what makes it differ from plain memory.
-/

set_option autoImplicit false

namespace Mos6502

/-- An inclusive range of addresses. -/
structure AddressRange where
  first : UInt16
  last : UInt16
  deriving DecidableEq, Repr

/-- Whether an address lies in a range. -/
def AddressRange.contains (range : AddressRange) (address : UInt16) : Bool :=
  range.first ≤ address && address ≤ range.last

/-- Memory with an optional write-protected range. -/
structure PlainBoard where
  ram : Ram := Ram.blank
  rom : Option AddressRange := none

namespace PlainBoard

/-- Whether writes to an address are dropped. -/
def protects (board : PlainBoard) (address : UInt16) : Bool :=
  board.rom.any (·.contains address)

/-- A write changes the memory unless the address is protected. -/
@[inline] def write (board : PlainBoard) (address : UInt16) (value : UInt8) : PlainBoard :=
  if board.protects address then board else { board with ram := board.ram.set address value }

instance : CellBus PlainBoard where
  read board address := (board.ram.get address, board)
  write := write
  peek board address := board.ram.get address
  read_eq _ _ := rfl
  guarded := protects
  peek_write board address value other := by
    unfold write
    split <;> simp_all [Ram.get_set]
  guarded_write board address value other := by
    unfold write
    split <;> rfl

end PlainBoard

/-- A counter: where it sits and how often it has been read, modulo 256. -/
structure ReadCounter where
  address : UInt16
  reads : UInt8 := 0
  deriving DecidableEq, Repr

/-- Memory with an optional write-protected range and an optional counter. -/
structure Board extends PlainBoard where
  counter : Option ReadCounter := none

namespace Board

/-- A read of the counter's address answers its count and advances it; any other read answers the
memory. -/
@[inline] def read (board : Board) (address : UInt16) : UInt8 × Board :=
  match board.counter with
  | none => (board.ram.get address, board)
  | some counter =>
    if address = counter.address then
      (counter.reads, { board with counter := some { counter with reads := counter.reads + 1 } })
    else (board.ram.get address, board)

/-- A write goes to the memory, also at the counter's address, unless the address is protected. -/
@[inline] def write (board : Board) (address : UInt16) (value : UInt8) : Board :=
  { board with toPlainBoard := board.toPlainBoard.write address value }

instance : Bus Board where
  read := read
  write := write

end Board

end Mos6502
