import Mos6502.Text.Invisible

/-!
Text inside messages: quoted, so that its ends and the characters that cannot be seen on their own
are visible. Quotes and backslashes are marked by a backslash, the common control characters have
letters, and other invisible characters are written as their number in hexadecimal.
-/

set_option autoImplicit false

namespace Mos6502

/-- A character inside quotes. -/
def quotedChar (c : Char) : List Char :=
  match c with
  | '"' => ['\\', '"']
  | '\\' => ['\\', '\\']
  | '\n' => ['\\', 'n']
  | '\r' => ['\\', 'r']
  | '\t' => ['\\', 't']
  | '\x00' => ['\\', '0']
  | c =>
    if isInvisible c then
      ['\\', 'u', '\x7b'] ++ Nat.toDigits 16 c.toNat ++ ['\x7d']
    else [c]

/-- Text in double quotes. -/
def quoted (s : String) : String :=
  String.ofList ('"' :: s.toList.flatMap quotedChar ++ ['"'])

end Mos6502
