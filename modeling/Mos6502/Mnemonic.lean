/-!
Mnemonics name what an instruction does. The documented ones come first, then the stable
undocumented ones; within each group the order is alphabetical.
-/

set_option autoImplicit false

namespace Mos6502

/-- The instructions of the processor, without regard to how their operands are addressed. -/
inductive Mnemonic where
  | adc | and | asl | bcc | bcs | beq | bit | bmi | bne | bpl | brk | bvc | bvs | clc | cld | cli
  | clv | cmp | cpx | cpy | dec | dex | dey | eor | inc | inx | iny | jmp | jsr | lda | ldx | ldy
  | lsr | nop | ora | pha | php | pla | plp | rol | ror | rti | rts | sbc | sec | sed | sei | sta
  | stx | sty | tax | tay | tsx | txa | txs | tya
  | alr | anc | arr | axs | dcp | isc | lax | rla | rra | sax | slo | sre
  deriving DecidableEq, Repr, Inhabited

namespace Mnemonic

/-- Every mnemonic, in the order in which they are listed. -/
def all : List Mnemonic :=
  [.adc, .and, .asl, .bcc, .bcs, .beq, .bit, .bmi, .bne, .bpl, .brk, .bvc, .bvs, .clc, .cld, .cli,
    .clv, .cmp, .cpx, .cpy, .dec, .dex, .dey, .eor, .inc, .inx, .iny, .jmp, .jsr, .lda, .ldx, .ldy,
    .lsr, .nop, .ora, .pha, .php, .pla, .plp, .rol, .ror, .rti, .rts, .sbc, .sec, .sed, .sei, .sta,
    .stx, .sty, .tax, .tay, .tsx, .txa, .txs, .tya, .alr, .anc, .arr, .axs, .dcp, .isc, .lax, .rla,
    .rra, .sax, .slo, .sre]

theorem mem_all (mnemonic : Mnemonic) : mnemonic ∈ all := by
  cases mnemonic <;> decide

/-- The assembler's name, in upper case. -/
def name : Mnemonic → String
  | .adc => "ADC"
  | .and => "AND"
  | .asl => "ASL"
  | .bcc => "BCC"
  | .bcs => "BCS"
  | .beq => "BEQ"
  | .bit => "BIT"
  | .bmi => "BMI"
  | .bne => "BNE"
  | .bpl => "BPL"
  | .brk => "BRK"
  | .bvc => "BVC"
  | .bvs => "BVS"
  | .clc => "CLC"
  | .cld => "CLD"
  | .cli => "CLI"
  | .clv => "CLV"
  | .cmp => "CMP"
  | .cpx => "CPX"
  | .cpy => "CPY"
  | .dec => "DEC"
  | .dex => "DEX"
  | .dey => "DEY"
  | .eor => "EOR"
  | .inc => "INC"
  | .inx => "INX"
  | .iny => "INY"
  | .jmp => "JMP"
  | .jsr => "JSR"
  | .lda => "LDA"
  | .ldx => "LDX"
  | .ldy => "LDY"
  | .lsr => "LSR"
  | .nop => "NOP"
  | .ora => "ORA"
  | .pha => "PHA"
  | .php => "PHP"
  | .pla => "PLA"
  | .plp => "PLP"
  | .rol => "ROL"
  | .ror => "ROR"
  | .rti => "RTI"
  | .rts => "RTS"
  | .sbc => "SBC"
  | .sec => "SEC"
  | .sed => "SED"
  | .sei => "SEI"
  | .sta => "STA"
  | .stx => "STX"
  | .sty => "STY"
  | .tax => "TAX"
  | .tay => "TAY"
  | .tsx => "TSX"
  | .txa => "TXA"
  | .txs => "TXS"
  | .tya => "TYA"
  | .alr => "ALR"
  | .anc => "ANC"
  | .arr => "ARR"
  | .axs => "AXS"
  | .dcp => "DCP"
  | .isc => "ISC"
  | .lax => "LAX"
  | .rla => "RLA"
  | .rra => "RRA"
  | .sax => "SAX"
  | .slo => "SLO"
  | .sre => "SRE"

/-- The capitalised name: the first letter in upper case and the rest in lower case. -/
def title (mnemonic : Mnemonic) : String :=
  mnemonic.name.toLower.capitalize

/-- The mnemonic with a capitalised name, if there is one. -/
def ofTitle? (title : String) : Option Mnemonic :=
  all.find? (·.title == title)

end Mnemonic

end Mos6502
