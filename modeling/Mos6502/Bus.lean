import Mos6502.Word

/-!
The bus is what a processor sees of the machine around it: sixteen-bit addresses, read and written a
byte at a time. A read hands the bus back, because a device behind an address may change when it is
read. Words are two bytes, low byte first.

`QuietBus` singles out the buses whose reads change nothing, and `CellBus` those that also remember
what was written, except where an address is protected.
-/

set_option autoImplicit false

namespace Mos6502

/-- Something that answers reads and takes writes of single bytes. -/
class Bus (M : Type) where
  /-- The byte at an address, and the bus after the read. -/
  read : M → UInt16 → UInt8 × M
  /-- The bus after a byte is written to an address. -/
  write : M → UInt16 → UInt8 → M

namespace Bus

variable {M : Type} [Bus M]

/-- Reads a word: its low byte at the address, its high byte at the next one. -/
def readWord (mem : M) (address : UInt16) : UInt16 × M :=
  let (low, mem) := read mem address
  let (high, mem) := read mem (address + 1)
  (word low high, mem)

/-- Reads a pointer: like a word, except that the high byte comes from the same page as the low. -/
def readPointer (mem : M) (address : UInt16) : UInt16 × M :=
  let (low, mem) := read mem address
  let (high, mem) := read mem (nextOnPage address)
  (word low high, mem)

/-- Writes a word, low byte first. -/
def writeWord (mem : M) (address value : UInt16) : M :=
  write (write mem address (lowByte value)) (address + 1) (highByte value)

/-- Reads `count` bytes from an address upwards. -/
def readBytes (mem : M) (address : UInt16) : Nat → List UInt8 × M
  | 0 => ([], mem)
  | count + 1 =>
    let (byte, mem) := read mem address
    let (rest, mem) := readBytes mem (address + 1) count
    (byte :: rest, mem)

end Bus

/-- A bus whose reads leave it as it was: what a read answers is a function of the bus. -/
class QuietBus (M : Type) extends Bus M where
  /-- The byte that a read of an address answers. -/
  peek : M → UInt16 → UInt8
  /-- A read answers what is seen at the address, and changes nothing. -/
  read_eq : ∀ mem address, Bus.read mem address = (peek mem address, mem)

/-- A quiet bus made of cells: a write changes the addressed cell, unless it is protected, and
nothing else. -/
class CellBus (M : Type) extends QuietBus M where
  /-- Whether a write to an address is ignored. -/
  guarded : M → UInt16 → Bool
  /-- After a write, the addressed cell holds the byte if it is not protected. -/
  peek_write : ∀ mem address value other, QuietBus.peek (Bus.write mem address value) other =
    if other = address ∧ guarded mem address = false then value else QuietBus.peek mem other
  /-- A write protects nothing and frees nothing. -/
  guarded_write : ∀ mem address value other,
    guarded (Bus.write mem address value) other = guarded mem other

namespace Bus

open QuietBus (peek)

variable {M : Type} [QuietBus M]

theorem readWord_quiet (mem : M) (address : UInt16) :
    readWord mem address = (word (peek mem address) (peek mem (address + 1)), mem) := by
  simp [readWord, QuietBus.read_eq]

theorem readPointer_quiet (mem : M) (address : UInt16) :
    readPointer mem address = (word (peek mem address) (peek mem (nextOnPage address)), mem) := by
  simp [readPointer, QuietBus.read_eq]

end Bus

end Mos6502
