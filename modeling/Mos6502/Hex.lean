/-!
Numbers in upper-case hexadecimal, padded with zeros to a fixed width, as addresses and bytes are
written in messages.
-/

set_option autoImplicit false

namespace Mos6502

/-- The digit of a number below sixteen. -/
def hexDigit (n : Nat) : Char :=
  if n < 10 then Char.ofNat (0x30 + n) else Char.ofNat (0x37 + n)

/-- The last `width` hexadecimal digits of a number. -/
def hexDigits : Nat → Nat → List Char
  | 0, _ => []
  | width + 1, n => hexDigits width (n / 16) ++ [hexDigit (n % 16)]

/-- A number below `16 ^ width` in upper-case hexadecimal, with leading zeros. -/
def hex (width n : Nat) : String :=
  String.ofList (hexDigits width n)

/-- A byte in upper-case hexadecimal. -/
def hexByte (byte : UInt8) : String :=
  hex 2 byte.toNat

/-- A word in upper-case hexadecimal. -/
def hexWord (w : UInt16) : String :=
  hex 4 w.toNat

end Mos6502
