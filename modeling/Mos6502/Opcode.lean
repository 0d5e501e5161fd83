import Mos6502.Instruction
import Mos6502.Hex

/-!
The decode table: for each opcode byte the mnemonic, the mode and the cost, or nothing if the byte
is illegal. `findDiscrepancy?` compares the table with the listing of instructions in both
directions.
-/

set_option autoImplicit false

namespace Mos6502

/-- What an opcode byte stands for. -/
structure Opcode where
  mnemonic : Mnemonic
  /-- Whether the encoding is undocumented. -/
  unofficial : Bool
  mode : Mode
  /-- The cost in cycles, before any charge for a taken branch or a crossed page. -/
  cycles : Nat
  /-- Whether indexing across a page boundary costs one cycle more. -/
  chargesCrossing : Bool
  cycles_pos : 0 < cycles := by decide
  deriving DecidableEq, Repr

namespace Opcode

/-- The assembler's name of the instruction. -/
def name (op : Opcode) : String :=
  op.mnemonic.name

/-- The size of the whole instruction in bytes. -/
def size (op : Opcode) : Nat :=
  op.mode.instructionSize

/-- Whether the opcode belongs to an entry of the listing. -/
def belongsTo (op : Opcode) (ins : Instruction) : Bool :=
  op.mnemonic == ins.mnemonic && op.unofficial == ins.unofficial

/-- An entry of the table: whether it is undocumented and pays for crossed pages, then the rest. -/
def entry (unofficial chargesCrossing : Bool) (mnemonic : Mnemonic) (mode : Mode) (cycles : Nat)
    (cycles_pos : 0 < cycles) : Option Opcode :=
  some { mnemonic, unofficial, mode, cycles, chargesCrossing, cycles_pos }

/-- A documented encoding of a fixed cost. -/
abbrev op (mnemonic : Mnemonic) (mode : Mode) (cycles : Nat)
    (cycles_pos : 0 < cycles := by decide) : Option Opcode :=
  entry false false mnemonic mode cycles cycles_pos

/-- A documented encoding that pays for a crossed page. -/
abbrev opX (mnemonic : Mnemonic) (mode : Mode) (cycles : Nat)
    (cycles_pos : 0 < cycles := by decide) : Option Opcode :=
  entry false true mnemonic mode cycles cycles_pos

/-- An undocumented encoding of a fixed cost. -/
abbrev un (mnemonic : Mnemonic) (mode : Mode) (cycles : Nat)
    (cycles_pos : 0 < cycles := by decide) : Option Opcode :=
  entry true false mnemonic mode cycles cycles_pos

/-- An undocumented encoding that pays for a crossed page. -/
abbrev unX (mnemonic : Mnemonic) (mode : Mode) (cycles : Nat)
    (cycles_pos : 0 < cycles := by decide) : Option Opcode :=
  entry true true mnemonic mode cycles cycles_pos

/-- The decode table: a row for each high digit of the opcode byte, and in it an entry for each low
digit. Branches are listed at the cost of not being taken. -/
def table : Vector (Vector (Option Opcode) 16) 16 :=
  #v[
    #v[
      /- 00 -/ op .brk .implied 7,
      /- 01 -/ op .ora .indirectX 6,
      /- 02 -/ none,
      /- 03 -/ un .slo .indirectX 8,
      /- 04 -/ un .nop .zeroPage 3,
      /- 05 -/ op .ora .zeroPage 3,
      /- 06 -/ op .asl .zeroPage 5,
      /- 07 -/ un .slo .zeroPage 5,
      /- 08 -/ op .php .implied 3,
      /- 09 -/ op .ora .immediate 2,
      /- 0A -/ op .asl .accumulator 2,
      /- 0B -/ un .anc .immediate 2,
      /- 0C -/ un .nop .absolute 4,
      /- 0D -/ op .ora .absolute 4,
      /- 0E -/ op .asl .absolute 6,
      /- 0F -/ un .slo .absolute 6],
    #v[
      /- 10 -/ op .bpl .relative 2,
      /- 11 -/ opX .ora .indirectY 5,
      /- 12 -/ none,
      /- 13 -/ un .slo .indirectY 8,
      /- 14 -/ un .nop .zeroPageX 4,
      /- 15 -/ op .ora .zeroPageX 4,
      /- 16 -/ op .asl .zeroPageX 6,
      /- 17 -/ un .slo .zeroPageX 6,
      /- 18 -/ op .clc .implied 2,
      /- 19 -/ opX .ora .absoluteY 4,
      /- 1A -/ un .nop .implied 2,
      /- 1B -/ un .slo .absoluteY 7,
      /- 1C -/ unX .nop .absoluteX 4,
      /- 1D -/ opX .ora .absoluteX 4,
      /- 1E -/ op .asl .absoluteX 7,
      /- 1F -/ un .slo .absoluteX 7],
    #v[
      /- 20 -/ op .jsr .absolute 6,
      /- 21 -/ op .and .indirectX 6,
      /- 22 -/ none,
      /- 23 -/ un .rla .indirectX 8,
      /- 24 -/ op .bit .zeroPage 3,
      /- 25 -/ op .and .zeroPage 3,
      /- 26 -/ op .rol .zeroPage 5,
      /- 27 -/ un .rla .zeroPage 5,
      /- 28 -/ op .plp .implied 4,
      /- 29 -/ op .and .immediate 2,
      /- 2A -/ op .rol .accumulator 2,
      /- 2B -/ un .anc .immediate 2,
      /- 2C -/ op .bit .absolute 4,
      /- 2D -/ op .and .absolute 4,
      /- 2E -/ op .rol .absolute 6,
      /- 2F -/ un .rla .absolute 6],
    #v[
      /- 30 -/ op .bmi .relative 2,
      /- 31 -/ opX .and .indirectY 5,
      /- 32 -/ none,
      /- 33 -/ un .rla .indirectY 8,
      /- 34 -/ un .nop .zeroPageX 4,
      /- 35 -/ op .and .zeroPageX 4,
      /- 36 -/ op .rol .zeroPageX 6,
      /- 37 -/ un .rla .zeroPageX 6,
      /- 38 -/ op .sec .implied 2,
      /- 39 -/ opX .and .absoluteY 4,
      /- 3A -/ un .nop .implied 2,
      /- 3B -/ un .rla .absoluteY 7,
      /- 3C -/ unX .nop .absoluteX 4,
      /- 3D -/ opX .and .absoluteX 4,
      /- 3E -/ op .rol .absoluteX 7,
      /- 3F -/ un .rla .absoluteX 7],
    #v[
      /- 40 -/ op .rti .implied 6,
      /- 41 -/ op .eor .indirectX 6,
      /- 42 -/ none,
      /- 43 -/ un .sre .indirectX 8,
      /- 44 -/ un .nop .zeroPage 3,
      /- 45 -/ op .eor .zeroPage 3,
      /- 46 -/ op .lsr .zeroPage 5,
      /- 47 -/ un .sre .zeroPage 5,
      /- 48 -/ op .pha .implied 3,
      /- 49 -/ op .eor .immediate 2,
      /- 4A -/ op .lsr .accumulator 2,
      /- 4B -/ un .alr .immediate 2,
      /- 4C -/ op .jmp .absolute 3,
      /- 4D -/ op .eor .absolute 4,
      /- 4E -/ op .lsr .absolute 6,
      /- 4F -/ un .sre .absolute 6],
    #v[
      /- 50 -/ op .bvc .relative 2,
      /- 51 -/ opX .eor .indirectY 5,
      /- 52 -/ none,
      /- 53 -/ un .sre .indirectY 8,
      /- 54 -/ un .nop .zeroPageX 4,
      /- 55 -/ op .eor .zeroPageX 4,
      /- 56 -/ op .lsr .zeroPageX 6,
      /- 57 -/ un .sre .zeroPageX 6,
      /- 58 -/ op .cli .implied 2,
      /- 59 -/ opX .eor .absoluteY 4,
      /- 5A -/ un .nop .implied 2,
      /- 5B -/ un .sre .absoluteY 7,
      /- 5C -/ unX .nop .absoluteX 4,
      /- 5D -/ opX .eor .absoluteX 4,
      /- 5E -/ op .lsr .absoluteX 7,
      /- 5F -/ un .sre .absoluteX 7],
    #v[
      /- 60 -/ op .rts .implied 6,
      /- 61 -/ op .adc .indirectX 6,
      /- 62 -/ none,
      /- 63 -/ un .rra .indirectX 8,
      /- 64 -/ un .nop .zeroPage 3,
      /- 65 -/ op .adc .zeroPage 3,
      /- 66 -/ op .ror .zeroPage 5,
      /- 67 -/ un .rra .zeroPage 5,
      /- 68 -/ op .pla .implied 4,
      /- 69 -/ op .adc .immediate 2,
      /- 6A -/ op .ror .accumulator 2,
      /- 6B -/ un .arr .immediate 2,
      /- 6C -/ op .jmp .indirect 5,
      /- 6D -/ op .adc .absolute 4,
      /- 6E -/ op .ror .absolute 6,
      /- 6F -/ un .rra .absolute 6],
    #v[
      /- 70 -/ op .bvs .relative 2,
      /- 71 -/ opX .adc .indirectY 5,
      /- 72 -/ none,
      /- 73 -/ un .rra .indirectY 8,
      /- 74 -/ un .nop .zeroPageX 4,
      /- 75 -/ op .adc .zeroPageX 4,
      /- 76 -/ op .ror .zeroPageX 6,
      /- 77 -/ un .rra .zeroPageX 6,
      /- 78 -/ op .sei .implied 2,
      /- 79 -/ opX .adc .absoluteY 4,
      /- 7A -/ un .nop .implied 2,
      /- 7B -/ un .rra .absoluteY 7,
      /- 7C -/ unX .nop .absoluteX 4,
      /- 7D -/ opX .adc .absoluteX 4,
      /- 7E -/ op .ror .absoluteX 7,
      /- 7F -/ un .rra .absoluteX 7],
    #v[
      /- 80 -/ un .nop .immediate 2,
      /- 81 -/ op .sta .indirectX 6,
      /- 82 -/ un .nop .immediate 2,
      /- 83 -/ un .sax .indirectX 6,
      /- 84 -/ op .sty .zeroPage 3,
      /- 85 -/ op .sta .zeroPage 3,
      /- 86 -/ op .stx .zeroPage 3,
      /- 87 -/ un .sax .zeroPage 3,
      /- 88 -/ op .dey .implied 2,
      /- 89 -/ un .nop .immediate 2,
      /- 8A -/ op .txa .implied 2,
      /- 8B -/ none,
      /- 8C -/ op .sty .absolute 4,
      /- 8D -/ op .sta .absolute 4,
      /- 8E -/ op .stx .absolute 4,
      /- 8F -/ un .sax .absolute 4],
    #v[
      /- 90 -/ op .bcc .relative 2,
      /- 91 -/ op .sta .indirectY 6,
      /- 92 -/ none,
      /- 93 -/ none,
      /- 94 -/ op .sty .zeroPageX 4,
      /- 95 -/ op .sta .zeroPageX 4,
      /- 96 -/ op .stx .zeroPageY 4,
      /- 97 -/ un .sax .zeroPageY 4,
      /- 98 -/ op .tya .implied 2,
      /- 99 -/ op .sta .absoluteY 5,
      /- 9A -/ op .txs .implied 2,
      /- 9B -/ none,
      /- 9C -/ none,
      /- 9D -/ op .sta .absoluteX 5,
      /- 9E -/ none,
      /- 9F -/ none],
    #v[
      /- A0 -/ op .ldy .immediate 2,
      /- A1 -/ op .lda .indirectX 6,
      /- A2 -/ op .ldx .immediate 2,
      /- A3 -/ un .lax .indirectX 6,
      /- A4 -/ op .ldy .zeroPage 3,
      /- A5 -/ op .lda .zeroPage 3,
      /- A6 -/ op .ldx .zeroPage 3,
      /- A7 -/ un .lax .zeroPage 3,
      /- A8 -/ op .tay .implied 2,
      /- A9 -/ op .lda .immediate 2,
      /- AA -/ op .tax .implied 2,
      /- AB -/ none,
      /- AC -/ op .ldy .absolute 4,
      /- AD -/ op .lda .absolute 4,
      /- AE -/ op .ldx .absolute 4,
      /- AF -/ un .lax .absolute 4],
    #v[
      /- B0 -/ op .bcs .relative 2,
      /- B1 -/ opX .lda .indirectY 5,
      /- B2 -/ none,
      /- B3 -/ unX .lax .indirectY 5,
      /- B4 -/ op .ldy .zeroPageX 4,
      /- B5 -/ op .lda .zeroPageX 4,
      /- B6 -/ op .ldx .zeroPageY 4,
      /- B7 -/ un .lax .zeroPageY 4,
      /- B8 -/ op .clv .implied 2,
      /- B9 -/ opX .lda .absoluteY 4,
      /- BA -/ op .tsx .implied 2,
      /- BB -/ none,
      /- BC -/ opX .ldy .absoluteX 4,
      /- BD -/ opX .lda .absoluteX 4,
      /- BE -/ opX .ldx .absoluteY 4,
      /- BF -/ unX .lax .absoluteY 4],
    #v[
      /- C0 -/ op .cpy .immediate 2,
      /- C1 -/ op .cmp .indirectX 6,
      /- C2 -/ un .nop .immediate 2,
      /- C3 -/ un .dcp .indirectX 8,
      /- C4 -/ op .cpy .zeroPage 3,
      /- C5 -/ op .cmp .zeroPage 3,
      /- C6 -/ op .dec .zeroPage 5,
      /- C7 -/ un .dcp .zeroPage 5,
      /- C8 -/ op .iny .implied 2,
      /- C9 -/ op .cmp .immediate 2,
      /- CA -/ op .dex .implied 2,
      /- CB -/ un .axs .immediate 2,
      /- CC -/ op .cpy .absolute 4,
      /- CD -/ op .cmp .absolute 4,
      /- CE -/ op .dec .absolute 6,
      /- CF -/ un .dcp .absolute 6],
    #v[
      /- D0 -/ op .bne .relative 2,
      /- D1 -/ opX .cmp .indirectY 5,
      /- D2 -/ none,
      /- D3 -/ un .dcp .indirectY 8,
      /- D4 -/ un .nop .zeroPageX 4,
      /- D5 -/ op .cmp .zeroPageX 4,
      /- D6 -/ op .dec .zeroPageX 6,
      /- D7 -/ un .dcp .zeroPageX 6,
      /- D8 -/ op .cld .implied 2,
      /- D9 -/ opX .cmp .absoluteY 4,
      /- DA -/ un .nop .implied 2,
      /- DB -/ un .dcp .absoluteY 7,
      /- DC -/ unX .nop .absoluteX 4,
      /- DD -/ opX .cmp .absoluteX 4,
      /- DE -/ op .dec .absoluteX 7,
      /- DF -/ un .dcp .absoluteX 7],
    #v[
      /- E0 -/ op .cpx .immediate 2,
      /- E1 -/ op .sbc .indirectX 6,
      /- E2 -/ un .nop .immediate 2,
      /- E3 -/ un .isc .indirectX 8,
      /- E4 -/ op .cpx .zeroPage 3,
      /- E5 -/ op .sbc .zeroPage 3,
      /- E6 -/ op .inc .zeroPage 5,
      /- E7 -/ un .isc .zeroPage 5,
      /- E8 -/ op .inx .implied 2,
      /- E9 -/ op .sbc .immediate 2,
      /- EA -/ op .nop .implied 2,
      /- EB -/ un .sbc .immediate 2,
      /- EC -/ op .cpx .absolute 4,
      /- ED -/ op .sbc .absolute 4,
      /- EE -/ op .inc .absolute 6,
      /- EF -/ un .isc .absolute 6],
    #v[
      /- F0 -/ op .beq .relative 2,
      /- F1 -/ opX .sbc .indirectY 5,
      /- F2 -/ none,
      /- F3 -/ un .isc .indirectY 8,
      /- F4 -/ un .nop .zeroPageX 4,
      /- F5 -/ op .sbc .zeroPageX 4,
      /- F6 -/ op .inc .zeroPageX 6,
      /- F7 -/ un .isc .zeroPageX 6,
      /- F8 -/ op .sed .implied 2,
      /- F9 -/ opX .sbc .absoluteY 4,
      /- FA -/ un .nop .implied 2,
      /- FB -/ un .isc .absoluteY 7,
      /- FC -/ unX .nop .absoluteX 4,
      /- FD -/ opX .sbc .absoluteX 4,
      /- FE -/ op .inc .absoluteX 7,
      /- FF -/ un .isc .absoluteX 7]]

/-- The entry for an opcode byte; an illegal byte has none. -/
def decode (byte : UInt8) : Option Opcode :=
  let high : Fin 16 := ⟨byte.toNat / 16, by have := byte.toNat_lt; omega⟩
  let low : Fin 16 := ⟨byte.toNat % 16, Nat.mod_lt _ (by decide)⟩
  table[high][low]

/-- A disagreement between the decode table and the listing of instructions. -/
inductive Discrepancy where
  /-- The table has an entry that the listing does not encode with this byte. -/
  | mismatch (opcode : UInt8) (mnemonic : Mnemonic) (mode : Mode)
  /-- The table has an entry whose cost no instruction has. -/
  | badCycles (opcode : UInt8) (mnemonic : Mnemonic) (cycles : Nat)
  /-- The listing has an encoding that the table lacks. -/
  | missing (opcode : UInt8) (mnemonic : Mnemonic)
  deriving DecidableEq, Repr

/-- The text of a discrepancy. -/
def Discrepancy.message : Discrepancy → String
  | .mismatch opcode mnemonic mode =>
    s!"opcode ${hexByte opcode}: {mnemonic.name} is not encoded as {mode.name} with this byte"
  | .badCycles opcode mnemonic cycles =>
    s!"opcode ${hexByte opcode}: {mnemonic.name} has invalid cycle count {cycles}"
  | .missing opcode mnemonic =>
    s!"opcode ${hexByte opcode} is listed by {mnemonic.name} but missing from the table"

/-- What is wrong with the entry for a byte, seen from the table. -/
def entryDiscrepancy? (byte : UInt8) : Option Discrepancy := do
  let op ← decode byte
  if !Instruction.listing.any (fun ins ↦ op.belongsTo ins && ins.encodes op.mode byte) then
    some (.mismatch byte op.mnemonic op.mode)
  else if 8 < op.cycles then some (.badCycles byte op.mnemonic op.cycles)
  else none

/-- What is wrong with a listed encoding, seen from the listing. -/
def listedDiscrepancy? (ins : Instruction) (encoding : Encoding) : Option Discrepancy :=
  if (decode encoding.opcode).any (fun op ↦ op.belongsTo ins && op.mode == encoding.mode) then none
  else some (.missing encoding.opcode ins.mnemonic)

/-- The first discrepancy between the table and the listing: the table's entries are looked at by
byte, then the listing in its order. -/
def findDiscrepancy? : Option Discrepancy :=
  (List.range UInt8.size).findSome? (fun n ↦ entryDiscrepancy? (UInt8.ofNat n)) <|>
    Instruction.listing.findSome? fun ins ↦ ins.encodings.findSome? (listedDiscrepancy? ins)

end Opcode

end Mos6502
