import Toolchain6502.Assembly.Operand
import Toolchain6502.Cpu.Opcode

namespace Toolchain6502.Assembly

open Cpu

/-- A missing operand of a shift means the accumulator. -/
def impliedMode (m : Mnemonic) : Mode :=
  if !m.supports .implied && m.supports .accumulator then .accumulator else .implied

/-- A lone byte or symbol is the target of a branch; elsewhere a symbol takes a full address
where the mnemonic has one. -/
def directMode (m : Mnemonic) (named : Bool) : Mode :=
  if m.isBranch then .relative
  else if named && m.supports .absolute then .absolute
  else .zeroPage

/-- The mode of an operand. An indexed symbol falls back to the zero page. -/
def encodingMode (m : Mnemonic) (o : Operand) : Mode :=
  match o.shape with
  | .direct => directMode m o.symbol?.isSome
  | .fixed .implied => impliedMode m
  | .fixed .absoluteX =>
    if o.symbol?.isSome && !m.supports .absoluteX then .zeroPageX else .absoluteX
  | .fixed .absoluteY =>
    if o.symbol?.isSome && !m.supports .absoluteY then .zeroPageY else .absoluteY
  | .fixed mode => mode

def encoding? (m : Mnemonic) (o : Operand) : Option Opcode := m.opcode? (encodingMode m o)

end Toolchain6502.Assembly
