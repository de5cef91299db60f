namespace Toolchain6502.Cpu

inductive Mode where
  | implied
  | accumulator
  | immediate
  | zeroPage
  | zeroPageX
  | zeroPageY
  | absolute
  | absoluteX
  | absoluteY
  | indirect
  | indexedIndirect
  | indirectIndexed
  | relative
deriving DecidableEq, Repr

def Mode.name : Mode → String
  | implied => "implied"
  | accumulator => "accumulator"
  | immediate => "immediate"
  | zeroPage => "zero-page"
  | zeroPageX => "zero-page,X"
  | zeroPageY => "zero-page,Y"
  | absolute => "absolute"
  | absoluteX => "absolute,X"
  | absoluteY => "absolute,Y"
  | indirect => "indirect"
  | indexedIndirect => "(indirect,X)"
  | indirectIndexed => "(indirect),Y"
  | relative => "relative"

def Mode.operandSize : Mode → Nat
  | implied | accumulator => 0
  | absolute | absoluteX | absoluteY | indirect => 2
  | _ => 1

end Toolchain6502.Cpu
