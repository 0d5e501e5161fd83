import Mos6502.Mode
import Mos6502.Mnemonic

/-!
The listing of instructions. An entry names a mnemonic, says whether the encodings it lists are
documented, and lists them: each a mode and the opcode byte that stands for the mnemonic in that
mode. Several bytes may encode one mode; the first listed is the canonical one. Two mnemonics, NOP
and SBC, have an entry for their documented encodings and another for the rest.
-/

set_option autoImplicit false

namespace Mos6502

/-- One way to encode an instruction: its mode and its opcode byte. -/
structure Encoding where
  mode : Mode
  opcode : UInt8
  deriving DecidableEq, Repr

/-- An entry of the listing. -/
structure Instruction where
  mnemonic : Mnemonic
  /-- Whether the listed encodings are undocumented. -/
  unofficial : Bool
  /-- The encodings in the order in which they are listed. -/
  encodings : List Encoding
  deriving DecidableEq, Repr

namespace Instruction

/-- The assembler's name of an instruction. -/
def name (ins : Instruction) : String :=
  ins.mnemonic.name

/-- Whether some listed encoding has a mode. -/
def supports (ins : Instruction) (mode : Mode) : Bool :=
  ins.encodings.any (·.mode == mode)

/-- The canonical opcode byte for a mode. -/
def opcodeFor (ins : Instruction) (mode : Mode) : Option UInt8 :=
  (ins.encodings.find? (·.mode == mode)).map (·.opcode)

/-- Whether a byte is listed as an encoding for a mode. -/
def encodes (ins : Instruction) (mode : Mode) (opcode : UInt8) : Bool :=
  ins.encodings.contains ⟨mode, opcode⟩

/-- A documented entry. -/
def documented (mnemonic : Mnemonic) (encodings : List (Mode × UInt8)) : Instruction :=
  ⟨mnemonic, false, encodings.map fun (mode, opcode) ↦ ⟨mode, opcode⟩⟩

/-- An undocumented entry. -/
def undocumented (mnemonic : Mnemonic) (encodings : List (Mode × UInt8)) : Instruction :=
  ⟨mnemonic, true, encodings.map fun (mode, opcode) ↦ ⟨mode, opcode⟩⟩

/-- The listing: documented entries first. -/
def listing : List Instruction :=
  [documented .adc
      [(.immediate, 0x69), (.zeroPage, 0x65), (.zeroPageX, 0x75), (.absolute, 0x6D),
        (.absoluteX, 0x7D), (.absoluteY, 0x79), (.indirectX, 0x61), (.indirectY, 0x71)],
    documented .and
      [(.immediate, 0x29), (.zeroPage, 0x25), (.zeroPageX, 0x35), (.absolute, 0x2D),
        (.absoluteX, 0x3D), (.absoluteY, 0x39), (.indirectX, 0x21), (.indirectY, 0x31)],
    documented .asl
      [(.accumulator, 0x0A), (.zeroPage, 0x06), (.zeroPageX, 0x16), (.absolute, 0x0E),
        (.absoluteX, 0x1E)],
    documented .bcc [(.relative, 0x90)],
    documented .bcs [(.relative, 0xB0)],
    documented .beq [(.relative, 0xF0)],
    documented .bit [(.zeroPage, 0x24), (.absolute, 0x2C)],
    documented .bmi [(.relative, 0x30)],
    documented .bne [(.relative, 0xD0)],
    documented .bpl [(.relative, 0x10)],
    documented .brk [(.implied, 0x00)],
    documented .bvc [(.relative, 0x50)],
    documented .bvs [(.relative, 0x70)],
    documented .clc [(.implied, 0x18)],
    documented .cld [(.implied, 0xD8)],
    documented .cli [(.implied, 0x58)],
    documented .clv [(.implied, 0xB8)],
    documented .cmp
      [(.immediate, 0xC9), (.zeroPage, 0xC5), (.zeroPageX, 0xD5), (.absolute, 0xCD),
        (.absoluteX, 0xDD), (.absoluteY, 0xD9), (.indirectX, 0xC1), (.indirectY, 0xD1)],
    documented .cpx [(.immediate, 0xE0), (.zeroPage, 0xE4), (.absolute, 0xEC)],
    documented .cpy [(.immediate, 0xC0), (.zeroPage, 0xC4), (.absolute, 0xCC)],
    documented .dec [(.zeroPage, 0xC6), (.zeroPageX, 0xD6), (.absolute, 0xCE), (.absoluteX, 0xDE)],
    documented .dex [(.implied, 0xCA)],
    documented .dey [(.implied, 0x88)],
    documented .eor
      [(.immediate, 0x49), (.zeroPage, 0x45), (.zeroPageX, 0x55), (.absolute, 0x4D),
        (.absoluteX, 0x5D), (.absoluteY, 0x59), (.indirectX, 0x41), (.indirectY, 0x51)],
    documented .inc [(.zeroPage, 0xE6), (.zeroPageX, 0xF6), (.absolute, 0xEE), (.absoluteX, 0xFE)],
    documented .inx [(.implied, 0xE8)],
    documented .iny [(.implied, 0xC8)],
    documented .jmp [(.absolute, 0x4C), (.indirect, 0x6C)],
    documented .jsr [(.absolute, 0x20)],
    documented .lda
      [(.immediate, 0xA9), (.zeroPage, 0xA5), (.zeroPageX, 0xB5), (.absolute, 0xAD),
        (.absoluteX, 0xBD), (.absoluteY, 0xB9), (.indirectX, 0xA1), (.indirectY, 0xB1)],
    documented .ldx
      [(.immediate, 0xA2), (.zeroPage, 0xA6), (.zeroPageY, 0xB6), (.absolute, 0xAE),
        (.absoluteY, 0xBE)],
    documented .ldy
      [(.immediate, 0xA0), (.zeroPage, 0xA4), (.zeroPageX, 0xB4), (.absolute, 0xAC),
        (.absoluteX, 0xBC)],
    documented .lsr
      [(.accumulator, 0x4A), (.zeroPage, 0x46), (.zeroPageX, 0x56), (.absolute, 0x4E),
        (.absoluteX, 0x5E)],
    documented .nop [(.implied, 0xEA)],
    documented .ora
      [(.immediate, 0x09), (.zeroPage, 0x05), (.zeroPageX, 0x15), (.absolute, 0x0D),
        (.absoluteX, 0x1D), (.absoluteY, 0x19), (.indirectX, 0x01), (.indirectY, 0x11)],
    documented .pha [(.implied, 0x48)],
    documented .php [(.implied, 0x08)],
    documented .pla [(.implied, 0x68)],
    documented .plp [(.implied, 0x28)],
    documented .rol
      [(.accumulator, 0x2A), (.zeroPage, 0x26), (.zeroPageX, 0x36), (.absolute, 0x2E),
        (.absoluteX, 0x3E)],
    documented .ror
      [(.accumulator, 0x6A), (.zeroPage, 0x66), (.zeroPageX, 0x76), (.absolute, 0x6E),
        (.absoluteX, 0x7E)],
    documented .rti [(.implied, 0x40)],
    documented .rts [(.implied, 0x60)],
    documented .sbc
      [(.immediate, 0xE9), (.zeroPage, 0xE5), (.zeroPageX, 0xF5), (.absolute, 0xED),
        (.absoluteX, 0xFD), (.absoluteY, 0xF9), (.indirectX, 0xE1), (.indirectY, 0xF1)],
    documented .sec [(.implied, 0x38)],
    documented .sed [(.implied, 0xF8)],
    documented .sei [(.implied, 0x78)],
    documented .sta
      [(.zeroPage, 0x85), (.zeroPageX, 0x95), (.absolute, 0x8D), (.absoluteX, 0x9D),
        (.absoluteY, 0x99), (.indirectX, 0x81), (.indirectY, 0x91)],
    documented .stx [(.zeroPage, 0x86), (.zeroPageY, 0x96), (.absolute, 0x8E)],
    documented .sty [(.zeroPage, 0x84), (.zeroPageX, 0x94), (.absolute, 0x8C)],
    documented .tax [(.implied, 0xAA)],
    documented .tay [(.implied, 0xA8)],
    documented .tsx [(.implied, 0xBA)],
    documented .txa [(.implied, 0x8A)],
    documented .txs [(.implied, 0x9A)],
    documented .tya [(.implied, 0x98)],
    undocumented .alr [(.immediate, 0x4B)],
    undocumented .anc [(.immediate, 0x0B), (.immediate, 0x2B)],
    undocumented .arr [(.immediate, 0x6B)],
    undocumented .axs [(.immediate, 0xCB)],
    undocumented .dcp
      [(.zeroPage, 0xC7), (.zeroPageX, 0xD7), (.absolute, 0xCF), (.absoluteX, 0xDF),
        (.absoluteY, 0xDB), (.indirectX, 0xC3), (.indirectY, 0xD3)],
    undocumented .isc
      [(.zeroPage, 0xE7), (.zeroPageX, 0xF7), (.absolute, 0xEF), (.absoluteX, 0xFF),
        (.absoluteY, 0xFB), (.indirectX, 0xE3), (.indirectY, 0xF3)],
    undocumented .lax
      [(.zeroPage, 0xA7), (.zeroPageY, 0xB7), (.absolute, 0xAF), (.absoluteY, 0xBF),
        (.indirectX, 0xA3), (.indirectY, 0xB3)],
    undocumented .nop
      [(.implied, 0x1A), (.implied, 0x3A), (.implied, 0x5A), (.implied, 0x7A), (.implied, 0xDA),
        (.implied, 0xFA), (.immediate, 0x80), (.immediate, 0x82), (.immediate, 0x89),
        (.immediate, 0xC2), (.immediate, 0xE2), (.zeroPage, 0x04), (.zeroPage, 0x44),
        (.zeroPage, 0x64), (.zeroPageX, 0x14), (.zeroPageX, 0x34), (.zeroPageX, 0x54),
        (.zeroPageX, 0x74), (.zeroPageX, 0xD4), (.zeroPageX, 0xF4), (.absolute, 0x0C),
        (.absoluteX, 0x1C), (.absoluteX, 0x3C), (.absoluteX, 0x5C), (.absoluteX, 0x7C),
        (.absoluteX, 0xDC), (.absoluteX, 0xFC)],
    undocumented .rla
      [(.zeroPage, 0x27), (.zeroPageX, 0x37), (.absolute, 0x2F), (.absoluteX, 0x3F),
        (.absoluteY, 0x3B), (.indirectX, 0x23), (.indirectY, 0x33)],
    undocumented .rra
      [(.zeroPage, 0x67), (.zeroPageX, 0x77), (.absolute, 0x6F), (.absoluteX, 0x7F),
        (.absoluteY, 0x7B), (.indirectX, 0x63), (.indirectY, 0x73)],
    undocumented .sax
      [(.zeroPage, 0x87), (.zeroPageY, 0x97), (.absolute, 0x8F), (.indirectX, 0x83)],
    undocumented .sbc [(.immediate, 0xEB)],
    undocumented .slo
      [(.zeroPage, 0x07), (.zeroPageX, 0x17), (.absolute, 0x0F), (.absoluteX, 0x1F),
        (.absoluteY, 0x1B), (.indirectX, 0x03), (.indirectY, 0x13)],
    undocumented .sre
      [(.zeroPage, 0x47), (.zeroPageX, 0x57), (.absolute, 0x4F), (.absoluteX, 0x5F),
        (.absoluteY, 0x5B), (.indirectX, 0x43), (.indirectY, 0x53)]]

/-- The first listed entry with a name, in either case. -/
def ofName? (name : String) : Option Instruction :=
  listing.find? (·.name == name.toUpper)

end Instruction

end Mos6502
