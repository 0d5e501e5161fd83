import Mathlib.Algebra.GroupWithZero.Nat
import Mos6502.Log.Journal
import Mos6502.Proofs.Literals

/-!
What messages say. A message is a text with numerals in it, and what it says is what can be read off
it. `Denotes` reads a numeral digit by digit; the numerals of a message are hexadecimal ones of a
fixed width (`IsHex`) or decimal ones (`IsDecimal`). Around them stands the text of each event, as
`Event.Says` spells it out, and that of a traced instruction, field by field (`TraceLine.Says`). A
report of drops says how many there were and of which category (`ReportsDrops`).

The texts that are written are such texts: `Event.says_message` and `Journal.reports_dropReport`.
-/

set_option autoImplicit false

namespace Mos6502

/-! ### Numerals -/

/-- The digits of numerals, each at the place of its value. -/
def digits : List Char :=
  ['0', '1', '2', '3', '4', '5', '6', '7', '8', '9', 'A', 'B', 'C', 'D', 'E', 'F']

/-- Digits of a numeral and the number that they stand for in a base. A digit at the end counts for
its value, and those before it for the base times as much as without it. -/
inductive Denotes (base : Nat) : List Char → Nat → Prop where
  | nil : Denotes base [] 0
  | concat {numeral : List Char} {n d : Nat} {digit : Char} (hnumeral : Denotes base numeral n)
    (hdigit : digits[d]? = some digit) (hbase : d < base) :
    Denotes base (numeral ++ [digit]) (base * n + d)

/-- A text is the hexadecimal numeral of a number with as many digits as the width says. -/
structure IsHex (width n : Nat) (text : String) : Prop where
  length : text.toList.length = width
  denotes : Denotes 16 text.toList n

/-- A text is the decimal numeral of a number: no other digit follows a zero in front. -/
structure IsDecimal (n : Nat) (text : String) : Prop where
  denotes : Denotes 10 text.toList n
  ne_nil : text.toList ≠ []
  zero : text.toList.head? = some '0' → text.toList = ['0']

/-- A text is the numeral of a byte, which has two digits. -/
abbrev IsByte (byte : UInt8) : String → Prop :=
  IsHex 2 byte.toNat

/-- A text is the numeral of a word, which has four digits. -/
abbrev IsWord (w : UInt16) : String → Prop :=
  IsHex 4 w.toNat

theorem getElem?_digits {d : Nat} (hd : d < 16) : digits[d]? = some (hexDigit d) := by
  have hall : ∀ d < 16, digits[d]? = some (hexDigit d) := by decide
  exact hall d hd

theorem length_hexDigits (width n : Nat) : (hexDigits width n).length = width := by
  induction width generalizing n with
  | zero => rfl
  | succ width ih => rw [hexDigits, List.length_append, ih, List.length_singleton]

/-- The last digits of a number stand for it if there are enough of them. -/
theorem denotes_hexDigits {width n : Nat} (hn : n < 16 ^ width) :
    Denotes 16 (hexDigits width n) n := by
  induction width generalizing n with
  | zero =>
    obtain rfl : n = 0 := Nat.lt_one_iff.mp hn
    exact .nil
  | succ width ih =>
    have hfront : n / 16 < 16 ^ width :=
      Nat.div_lt_of_lt_mul (by rwa [Nat.pow_succ, Nat.mul_comm] at hn)
    have hlast : n % 16 < 16 := Nat.mod_lt n (by decide)
    have hdenotes := (ih hfront).concat (getElem?_digits hlast) hlast
    rwa [Nat.div_add_mod] at hdenotes

theorem isHex_hex {width n : Nat} (hn : n < 16 ^ width) : IsHex width n (hex width n) where
  length := by rw [hex, String.toList_ofList, length_hexDigits]
  denotes := by
    rw [hex, String.toList_ofList]
    exact denotes_hexDigits hn

theorem isByte_hexByte (byte : UInt8) : IsByte byte (hexByte byte) :=
  isHex_hex byte.toNat_lt

theorem isWord_hexWord (w : UInt16) : IsWord w (hexWord w) :=
  isHex_hex w.toNat_lt

theorem denotes_toDigits (n : Nat) : Denotes 10 (Nat.toDigits 10 n) n := by
  have hdigits : ∀ d < 10, digits[d]? = some d.digitChar := by decide
  induction n using Nat.base_induction 10 (by decide) with
  | single n hn =>
    have hdenotes := Denotes.nil.concat (hdigits n hn) hn
    rw [Nat.mul_zero, Nat.zero_add] at hdenotes
    rwa [Nat.toDigits_of_lt_base hn]
  | digit n d hd hn ih =>
    rw [← Nat.toDigits_append_toDigits (by decide) hn hd, Nat.toDigits_of_lt_base hd]
    exact ih.concat (hdigits d hd) hd

theorem isDecimal_repr (n : Nat) : IsDecimal n n.repr where
  denotes := by
    rw [Nat.toList_repr]
    exact denotes_toDigits n
  ne_nil := by
    rw [Nat.toList_repr]
    exact Nat.toDigits_ne_nil
  zero := by
    rw [Nat.toList_repr]
    exact Json.toDigits_eq_of_head?

/-! ### Traced instructions -/

/-- A text is the numerals of bytes with a blank between each and the next. -/
inductive AreBytes : List UInt8 → String → Prop where
  | nil : AreBytes [] ""
  | single {byte : UInt8} {numeral : String} (hbyte : IsByte byte numeral) :
    AreBytes [byte] numeral
  | cons {byte next : UInt8} {rest : List UInt8} {numeral text : String}
    (hbyte : IsByte byte numeral) (hrest : AreBytes (next :: rest) text) :
    AreBytes (byte :: next :: rest) (numeral ++ " " ++ text)

/-- A text is bytes filled up with blanks to the width of three. -/
structure IsColumn (bytes : List UInt8) (column : String) : Prop where
  filled : ∃ text blanks, AreBytes bytes text ∧
    column = text ++ String.ofList (List.replicate blanks ' ') ∧ column.length = max 8 text.length

/-- A text is the name of an instruction: three capital letters that are the name of no other. -/
structure Mnemonic.IsCalled (mnemonic : Mnemonic) (name : String) : Prop where
  eq_name : name = mnemonic.name
  length : name.length = 3
  isUpper : ∀ c ∈ name.toList, c.isUpper = true
  of_name_eq : ∀ other : Mnemonic, other.name = name → other = mnemonic

/-- A text shows an instruction and the processor before it: the address, the bytes, a star if the
encoding is undocumented, the name, the registers, the status, the stack pointer and the cycles. -/
inductive TraceLine.Says (line : TraceLine) : String → Prop where
  | fields {pc column name a x y p sp cycles : String} {status : UInt8}
    (hpc : IsWord line.pc pc) (hcolumn : IsColumn line.bytes column)
    (hname : line.opcode.mnemonic.IsCalled name)
    (ha : IsByte line.registers.a a) (hx : IsByte line.registers.x x)
    (hy : IsByte line.registers.y y) (hp : IsByte status p)
    (hstatus : Flags.ofByte status = line.registers.flags)
    (hsp : IsByte line.registers.sp sp) (hcycles : IsDecimal line.cycles.toNat cycles) :
    Says line (pc ++ "  " ++ column ++ " " ++ (if line.opcode.unofficial then "*" else " ") ++
      name ++ " A:" ++ a ++ " X:" ++ x ++ " Y:" ++ y ++ " P:" ++ p ++ " SP:" ++ sp ++
      " CYC:" ++ cycles)

theorem areBytes_intercalate (bytes : List UInt8) :
    AreBytes bytes (" ".intercalate (bytes.map hexByte)) := by
  match bytes with
  | [] => exact .nil
  | [byte] =>
    rw [List.map_singleton, String.intercalate_singleton]
    exact .single (isByte_hexByte byte)
  | byte :: next :: rest =>
    rw [List.map_cons, List.map_cons, String.intercalate_cons_cons]
    exact .cons (isByte_hexByte byte) (areBytes_intercalate (next :: rest))

/-- Bytes that are filled up to a width of eight characters are a column. -/
theorem isColumn_filled (bytes : List UInt8) :
    let text := " ".intercalate (bytes.map hexByte)
    IsColumn bytes (text ++ String.ofList (List.replicate (8 - text.length) ' ')) := by
  intro text
  refine ⟨text, _, areBytes_intercalate bytes, rfl, ?_⟩
  rw [String.length_append, String.length_ofList, List.length_replicate]
  omega

theorem Mnemonic.isCalled_name (mnemonic : Mnemonic) : mnemonic.IsCalled mnemonic.name := by
  have hletters : ∀ mnemonic ∈ all, mnemonic.name.length = 3 ∧
      mnemonic.name.toList.all (·.isUpper) = true := by decide +kernel
  have hdifferent : ∀ mnemonic ∈ all, ∀ other ∈ all,
      other.name = mnemonic.name → other = mnemonic := by decide +kernel
  obtain ⟨hlength, hupper⟩ := hletters mnemonic mnemonic.mem_all
  exact ⟨rfl, hlength, List.all_eq_true.mp hupper,
    fun other ↦ hdifferent mnemonic mnemonic.mem_all other other.mem_all⟩

/-- The text of a trace shows the instruction and the processor before it. -/
theorem TraceLine.says_message (line : TraceLine) : line.Says line.message := by
  have hsays := Says.fields (isWord_hexWord line.pc) (isColumn_filled line.bytes)
    line.opcode.mnemonic.isCalled_name (isByte_hexByte _) (isByte_hexByte _) (isByte_hexByte _)
    (isByte_hexByte _) (Flags.ofByte_toByte line.registers.flags) (isByte_hexByte _)
    (isDecimal_repr _)
  simpa only [message, toString, Opcode.name, String.append_assoc] using hsays

/-! ### Events -/

/-- A text says what has happened, and where. -/
inductive Event.Says : Event → String → Prop where
  | reset {pc : UInt16} {start : String} (hpc : IsWord pc start) :
    Says (.reset pc) ("CPU: reset, PC=" ++ start)
  | nmi {pc handler : UInt16} {source target : String} (hpc : IsWord pc source)
    (hhandler : IsWord handler target) :
    Says (.interrupt .nmi pc handler) ("CPU: NMI at PC=" ++ source ++ " -> " ++ target)
  | irq {pc handler : UInt16} {source target : String} (hpc : IsWord pc source)
    (hhandler : IsWord handler target) :
    Says (.interrupt .irq pc handler) ("CPU: IRQ at PC=" ++ source ++ " -> " ++ target)
  | illegalOpcode {opcode : UInt8} {pc : UInt16} {byte source : String}
    (hopcode : IsByte opcode byte) (hpc : IsWord pc source) :
    Says (.illegalOpcode opcode pc) ("CPU: illegal opcode " ++ byte ++ " at PC=" ++ source)
  | instruction {line : TraceLine} {text : String} (hline : line.Says text) :
    Says (.instruction line) text
  | jumpToSelf {pc : UInt16} {source : String} (hpc : IsWord pc source) :
    Says (.jumpToSelf pc) ("CPU: JMP to self at " ++ source)
  | softwareBreak {pc handler : UInt16} {source target : String} (hpc : IsWord pc source)
    (hhandler : IsWord handler target) :
    Says (.softwareBreak pc handler) ("CPU: BRK at PC=" ++ source ++ " -> " ++ target)
  | returnFromInterrupt {pc : UInt16} {target : String} (hpc : IsWord pc target) :
    Says (.returnFromInterrupt pc) ("CPU: RTI -> " ++ target)

/-- The text of every event says what has happened. -/
theorem Event.says_message (event : Event) : event.Says event.message := by
  cases event with
  | reset pc => exact .reset (isWord_hexWord pc)
  | interrupt source pc handler =>
    cases source with
    | nmi => exact .nmi (isWord_hexWord pc) (isWord_hexWord handler)
    | irq => exact .irq (isWord_hexWord pc) (isWord_hexWord handler)
  | illegalOpcode opcode pc => exact .illegalOpcode (isByte_hexByte opcode) (isWord_hexWord pc)
  | instruction line => exact .instruction line.says_message
  | jumpToSelf pc => exact .jumpToSelf (isWord_hexWord pc)
  | softwareBreak pc handler =>
    exact .softwareBreak (isWord_hexWord pc) (isWord_hexWord handler)
  | returnFromInterrupt pc => exact .returnFromInterrupt (isWord_hexWord pc)

/-! ### Reports of drops -/

/-- What a report begins with. -/
def Category.tag : Category → String
  | .cpu => "[Cpu]"
  | .interrupts => "[Interrupts]"
  | .decode => "[Decode]"

/-- A text reports how many messages of a category have been dropped. -/
inductive ReportsDrops (category : Category) (count : Nat) : String → Prop where
  | intro {numeral : String} (hcount : IsDecimal count numeral) :
    ReportsDrops category count
      (category.tag ++ " WARNING: rate limit exceeded, " ++ numeral ++ " message(s) dropped")

/-- A report says which category it is about, and counts. -/
theorem Journal.reports_dropReport (category : Category) (count : Nat) :
    ReportsDrops category count (dropReport category count) := by
  have hreports : ReportsDrops category count
      (category.tag ++ " WARNING: rate limit exceeded, " ++ count.repr ++ " message(s) dropped") :=
    .intro (isDecimal_repr count)
  cases category <;> exact hreports

end Mos6502
