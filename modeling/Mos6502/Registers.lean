import Mos6502.Flags
import Mos6502.Word

/-!
The registers that instructions compute with, and the computations. Each takes the registers before
and gives the registers after; none touches memory or the program counter. The computations that
change a cell, or the accumulator in its place, are separate: they see only the cell and the carry.

Addition and subtraction take the carry in and leave a carry out, so that they chain over numbers of
several bytes, in binary and, if decimal arithmetic is enabled, in packed decimal.
-/

set_option autoImplicit false

namespace Mos6502

/-- The accumulator, the index registers, the stack pointer and the flags. -/
structure Registers where
  a : UInt8
  x : UInt8
  y : UInt8
  sp : UInt8
  flags : Flags
  deriving DecidableEq, Repr, Inhabited

/-- A computation on a cell: from the byte and the carry to the new byte and carry. -/
abbrev CellOp := UInt8 → Bool → UInt8 × Bool

namespace CellOp

/-- One more, modulo 256; the carry stays. -/
def increment : CellOp := fun v carry ↦ (v + 1, carry)

/-- One less, modulo 256; the carry stays. -/
def decrement : CellOp := fun v carry ↦ (v - 1, carry)

/-- Moves every bit up by one; the top bit leaves into the carry. -/
def shiftLeft : CellOp := fun v _ ↦ (v <<< 1, v &&& 0x80 != 0)

/-- Moves every bit down by one; the low bit leaves into the carry. -/
def shiftRight : CellOp := fun v _ ↦ (v >>> 1, v &&& 0x01 != 0)

/-- Moves every bit up by one and the carry into the low bit; the top bit leaves into the carry. -/
def rotateLeft : CellOp := fun v carry ↦
  (v <<< 1 ||| (if carry then 0x01 else 0), v &&& 0x80 != 0)

/-- Moves every bit down by one and the carry into the top bit; the low bit leaves into the
carry. -/
def rotateRight : CellOp := fun v carry ↦
  (v >>> 1 ||| (if carry then 0x80 else 0), v &&& 0x01 != 0)

end CellOp

/-- The sum `a + m + carry` in packed decimal, and the same sum before its high digit is corrected.
A digit above nine is corrected by adding six; the low digit first, carrying one into the high
digit. -/
def decimalSum (a m : UInt8) (carry : Bool) : Nat × Nat :=
  let low := a.toNat % 16 + m.toNat % 16 + carry.toNat
  let low := if 10 ≤ low then (low + 6) % 16 + 16 else low
  let sum := a.toNat / 16 * 16 + m.toNat / 16 * 16 + low
  (if 0xA0 ≤ sum then sum + 0x60 else sum, sum)

/-- The byte `a - m - (1 - carry)` in packed decimal. -/
def decimalDifference (a m : UInt8) (carry : Bool) : UInt8 :=
  let low : Int := (a.toNat % 16 : Nat) - (m.toNat % 16 : Nat) + carry.toNat - 1
  let low := if low < 0 then (low - 6) % 16 - 16 else low
  let difference := (a.toNat / 16 * 16 : Nat) - (m.toNat / 16 * 16 : Nat) + low
  let difference := if difference < 0 then difference - 0x60 else difference
  UInt8.ofNat (difference % 256).toNat

namespace Registers

/-- The registers with new flags. -/
def mapFlags (f : Flags → Flags) (r : Registers) : Registers :=
  { r with flags := f r.flags }

/-- Puts a byte into the accumulator; Z and N describe it. -/
def setA (r : Registers) (value : UInt8) : Registers :=
  { r with a := value, flags := r.flags.setZN value }

/-- Puts a byte into X; Z and N describe it. -/
def setX (r : Registers) (value : UInt8) : Registers :=
  { r with x := value, flags := r.flags.setZN value }

/-- Puts a byte into Y; Z and N describe it. -/
def setY (r : Registers) (value : UInt8) : Registers :=
  { r with y := value, flags := r.flags.setZN value }

/-- A register is compared with a byte: C says that it is no less, Z and N describe the
difference. -/
def compare (r : Registers) (register value : UInt8) : Registers :=
  { r with flags := { r.flags with c := decide (value ≤ register) }.setZN (register - value) }

/-- The accumulator is tested against a byte: Z says that they share no bit, V and N copy its bits 6
and 7. -/
def testBits (r : Registers) (value : UInt8) : Registers :=
  { r with flags := { r.flags with
      z := r.a &&& value == 0, v := value &&& 0x40 != 0, n := isNegative value } }

/-- Binary addition with carry. V says that operands of one sign gave a sum of the other. -/
def addBinary (r : Registers) (m : UInt8) : Registers :=
  let sum := r.a.toNat + m.toNat + r.flags.c.toNat
  let result := UInt8.ofNat sum
  { r with
    a := result
    flags := { r.flags with
      c := decide (0xFF < sum)
      v := isNegative r.a == isNegative m && isNegative r.a != isNegative result }.setZN result }

/-- Decimal addition with carry. Z comes from the binary sum, N and V from the sum before its high
digit is corrected. -/
def addDecimal (r : Registers) (m : UInt8) : Registers :=
  let (corrected, sum) := decimalSum r.a m r.flags.c
  let binary := UInt8.ofNat (r.a.toNat + m.toNat + r.flags.c.toNat)
  let negative := sum / 0x80 % 2 == 1
  { r with
    a := UInt8.ofNat corrected
    flags := { r.flags with
      z := binary == 0
      n := negative
      v := isNegative r.a == isNegative m && isNegative r.a != negative
      c := decide (0x100 ≤ corrected) } }

/-- Addition with carry: in decimal if that is enabled and D is set. -/
def add (decimal : Bool) (r : Registers) (m : UInt8) : Registers :=
  if decimal && r.flags.d then r.addDecimal m else r.addBinary m

/-- Subtraction with borrow, a clear carry being a borrow. The flags come from the binary difference
in decimal too; V says that operands of different signs gave a result of the wrong one. -/
def subtract (decimal : Bool) (r : Registers) (m : UInt8) : Registers :=
  let taken := m.toNat + (1 - r.flags.c.toNat)
  let result := UInt8.ofNat (r.a.toNat + 256 - taken)
  { r with
    a := if decimal && r.flags.d then decimalDifference r.a m r.flags.c else result
    flags := { r.flags with
      c := decide (taken ≤ r.a.toNat)
      v := isNegative r.a != isNegative m && isNegative r.a != isNegative result }.setZN result }

/-- Puts the bits set in both the accumulator and a byte into the accumulator. -/
def andA (r : Registers) (m : UInt8) : Registers :=
  r.setA (r.a &&& m)

/-- Puts the bits set in the accumulator or a byte into the accumulator. -/
def orA (r : Registers) (m : UInt8) : Registers :=
  r.setA (r.a ||| m)

/-- Puts the bits in which the accumulator and a byte differ into the accumulator. -/
def xorA (r : Registers) (m : UInt8) : Registers :=
  r.setA (r.a ^^^ m)

/-- Computes on a cell's byte with the carry: the new byte, and the registers with C as the
computation left it and Z and N describing the new byte. -/
def applyCell (f : CellOp) (r : Registers) (value : UInt8) : UInt8 × Registers :=
  let (result, carry) := f value r.flags.c
  (result, { r with flags := { r.flags with c := carry }.setZN result })

/-- Computes on the accumulator as if it were a cell. -/
def applyA (f : CellOp) (r : Registers) : Registers :=
  let (result, r) := r.applyCell f r.a
  { r with a := result }

/-- Loads a byte into both the accumulator and X. -/
def setAX (r : Registers) (value : UInt8) : Registers :=
  let r := r.setA value
  r.setX r.a

/-- As `andA`, and the sign of the result also goes into C. -/
def andCarry (r : Registers) (m : UInt8) : Registers :=
  let r := r.andA m
  r.mapFlags fun f ↦ { f with c := f.n }

/-- As `andA`, followed by a shift right of the accumulator. -/
def andShift (r : Registers) (m : UInt8) : Registers :=
  (r.andA m).applyA .shiftRight

/-- As `andA`, followed by a rotation right of the accumulator; then C copies bit 6 of the result
and V says whether bits 5 and 6 differ. -/
def andRotate (r : Registers) (m : UInt8) : Registers :=
  let r := (r.andA m).applyA .rotateRight
  let bit6 := r.a &&& 0x40 != 0
  let bit5 := r.a &&& 0x20 != 0
  r.mapFlags fun f ↦ { f with c := bit6, v := bit6 != bit5 }

/-- X becomes the bits set in both the accumulator and X, less a byte; the flags are those of the
comparison of the two. -/
def andSubtract (r : Registers) (m : UInt8) : Registers :=
  let common := r.a &&& r.x
  { r.compare common m with x := common - m }

end Registers

end Mos6502
