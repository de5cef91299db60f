namespace Toolchain6502.Cpu

inductive Mnemonic where
  | lda | ldx | ldy | sta | stx | sty | adc | sbc | cmp | cpx | cpy | and | ora | eor | bit
  | inc | dec | inx | dex | iny | dey | asl | lsr | rol | ror | jmp | jsr | rts | rti | bcc
  | bcs | beq | bmi | bne | bpl | bvc | bvs | pha | pla | php | plp | clc | sec | cli | sei
  | clv | cld | sed | brk | nop | tax | txa | tay | tya | tsx | txs
deriving DecidableEq, Repr

def Mnemonic.all : List Mnemonic := [
  .lda, .ldx, .ldy, .sta, .stx, .sty, .adc, .sbc, .cmp, .cpx, .cpy, .and, .ora, .eor, .bit,
  .inc, .dec, .inx, .dex, .iny, .dey, .asl, .lsr, .rol, .ror, .jmp, .jsr, .rts, .rti, .bcc,
  .bcs, .beq, .bmi, .bne, .bpl, .bvc, .bvs, .pha, .pla, .php, .plp, .clc, .sec, .cli, .sei,
  .clv, .cld, .sed, .brk, .nop, .tax, .txa, .tay, .tya, .tsx, .txs]

def Mnemonic.name : Mnemonic → String
  | lda => "LDA"
  | ldx => "LDX"
  | ldy => "LDY"
  | sta => "STA"
  | stx => "STX"
  | sty => "STY"
  | adc => "ADC"
  | sbc => "SBC"
  | cmp => "CMP"
  | cpx => "CPX"
  | cpy => "CPY"
  | and => "AND"
  | ora => "ORA"
  | eor => "EOR"
  | bit => "BIT"
  | inc => "INC"
  | dec => "DEC"
  | inx => "INX"
  | dex => "DEX"
  | iny => "INY"
  | dey => "DEY"
  | asl => "ASL"
  | lsr => "LSR"
  | rol => "ROL"
  | ror => "ROR"
  | jmp => "JMP"
  | jsr => "JSR"
  | rts => "RTS"
  | rti => "RTI"
  | bcc => "BCC"
  | bcs => "BCS"
  | beq => "BEQ"
  | bmi => "BMI"
  | bne => "BNE"
  | bpl => "BPL"
  | bvc => "BVC"
  | bvs => "BVS"
  | pha => "PHA"
  | pla => "PLA"
  | php => "PHP"
  | plp => "PLP"
  | clc => "CLC"
  | sec => "SEC"
  | cli => "CLI"
  | sei => "SEI"
  | clv => "CLV"
  | cld => "CLD"
  | sed => "SED"
  | brk => "BRK"
  | nop => "NOP"
  | tax => "TAX"
  | txa => "TXA"
  | tay => "TAY"
  | tya => "TYA"
  | tsx => "TSX"
  | txs => "TXS"

def Mnemonic.ofName? (s : String) : Option Mnemonic := Mnemonic.all.find? (·.name == s)

def Mnemonic.isBranch : Mnemonic → Bool
  | bcc | bcs | beq | bmi | bne | bpl | bvc | bvs => true
  | _ => false

end Toolchain6502.Cpu
