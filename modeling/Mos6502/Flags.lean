/-!
The processor status register. Six flags are live state; B and U are bits of a byte pushed on the
stack and pulled from it, and the two conversions for the stack treat them apart from the rest.
The bits of the packed byte are, from bit 7 down, N V U B D I Z C.
-/

set_option autoImplicit false

namespace Mos6502

/-- The status flags: carry, zero, interrupt disable, decimal, break, unused, overflow, negative. -/
structure Flags where
  c : Bool := false
  z : Bool := false
  i : Bool := false
  d : Bool := false
  b : Bool := false
  u : Bool := false
  v : Bool := false
  n : Bool := false
  deriving DecidableEq, Repr, Inhabited

/-- Whether the top bit of a byte is set, which makes it negative in two's complement. -/
def isNegative (byte : UInt8) : Bool :=
  0x80 ≤ byte

namespace Flags

/-- The flags after power-on and reset: interrupts disabled, and U set. -/
def powerOn : Flags :=
  { i := true, u := true }

/-- The flags packed into a byte, one bit each. -/
def toByte (f : Flags) : UInt8 :=
  (if f.c then 0x01 else 0) ||| (if f.z then 0x02 else 0) |||
  (if f.i then 0x04 else 0) ||| (if f.d then 0x08 else 0) |||
  (if f.b then 0x10 else 0) ||| (if f.u then 0x20 else 0) |||
  (if f.v then 0x40 else 0) ||| (if f.n then 0x80 else 0)

/-- The flags whose packed byte is given. -/
def ofByte (p : UInt8) : Flags where
  c := p &&& 0x01 != 0
  z := p &&& 0x02 != 0
  i := p &&& 0x04 != 0
  d := p &&& 0x08 != 0
  b := p &&& 0x10 != 0
  u := p &&& 0x20 != 0
  v := p &&& 0x40 != 0
  n := p &&& 0x80 != 0

/-- The byte that goes on the stack: U is set, and B tells a software push from an interrupt. -/
def toPushedByte (f : Flags) (software : Bool) : UInt8 :=
  { f with b := software, u := true }.toByte

/-- The flags taken from a byte off the stack: its B bit is dropped and U is set. -/
def ofPulledByte (p : UInt8) : Flags :=
  { ofByte p with b := false, u := true }

/-- Z and N describe a byte: whether it is zero and whether it is negative. -/
def setZN (f : Flags) (value : UInt8) : Flags :=
  { f with z := value == 0, n := isNegative value }

/-- The carry as a number, zero or one. -/
def carryBit (f : Flags) : UInt8 :=
  if f.c then 1 else 0

@[simp] theorem ofByte_toByte (f : Flags) : ofByte f.toByte = f := by
  rcases f with ⟨c, z, i, d, b, u, v, n⟩
  cases c <;> cases z <;> cases i <;> cases d <;> cases b <;> cases u <;> cases v <;> cases n <;>
    rfl

@[simp] theorem ofPulledByte_toPushedByte (f : Flags) (software : Bool) :
    ofPulledByte (f.toPushedByte software) = { f with b := false, u := true } := by
  simp [ofPulledByte, toPushedByte]

end Flags

end Mos6502
