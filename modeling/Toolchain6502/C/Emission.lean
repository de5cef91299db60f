import Toolchain6502.C.Code
import Toolchain6502.C.Expression

namespace Toolchain6502.C

open Cpu

abbrev Code := List CodeLine

def leftByte : Int := 0x20
def rightByte : Int := 0x21
def countByte : Int := 0x22
def comparedByte : Int := 0x23

def generatedLabel (stem : String) (n : Nat) : String := s!"{stem}{n}"

def plain (m : Mnemonic) : CodeLine := .instruction m .none
def onByte (m : Mnemonic) (address : Int) : CodeLine := .instruction m (.zeroPage address)
def withValue (m : Mnemonic) (value : Int) : CodeLine := .instruction m (.immediate value)
def toLabel (m : Mnemonic) (name : String) : CodeLine := .instruction m (.label name)

def Term.check : Term → Except NumberFault Unit
  | immediate value => (value.hexText 2).map fun _ => ()
  | byte _ => .ok ()

def Address.check (a : Address) : Except NumberFault Unit :=
  match a.offset with
  | some (.immediate value) => (a.base.wordSum value).map fun _ => ()
  | _ => (a.base.hexText 4).map fun _ => ()

/-- Numbers are checked in the order in which they are written. -/
def Expr.check : Expr → Except NumberFault Unit
  | term t => t.check
  | memory a => a.check
  | complement e => e.check
  | binary _ left right => do
    left.check
    right.check

def Condition.check (c : Condition) : Except NumberFault Unit := do
  c.left.check
  c.right.check

def Term.load : Term → Code
  | immediate value => [withValue .lda value.toInt]
  | byte address => [onByte .lda address]

/-- An access to an address. An offset in a variable goes through the index register. -/
def Address.access (m : Mnemonic) (a : Address) : Code :=
  match a.offset with
  | none => [.instruction m (.absolute a.base.toInt)]
  | some (.immediate value) =>
    [.instruction m (.absolute ((a.base.toInt + value.toInt) % 0x10000))]
  | some (.byte address) => [onByte .ldy address, .instruction m (.absoluteY a.base.toInt)]

/-- A loop that shifts one bit a time, at most seven times. -/
def shiftCode (shift : Mnemonic) (n : Nat) : Code :=
  let again := generatedLabel "CSHIFT" n
  let done := generatedLabel "CSHIFTE" (n + 1)
  [onByte .sta leftByte, onByte .lda rightByte, withValue .and 7, onByte .sta countByte,
    .label again, onByte .lda countByte, toLabel .beq done, onByte shift leftByte,
    onByte .dec countByte, toLabel .jmp again, .label done, onByte .lda leftByte]

/-- Combines the accumulator, which also stands in the left byte, with the right byte. -/
def BinOp.code (n : Nat) : BinOp → Code × Nat
  | add => ([plain .clc, onByte .adc rightByte], n)
  | sub => ([plain .sec, onByte .sbc rightByte], n)
  | and => ([onByte .and rightByte], n)
  | xor => ([onByte .eor rightByte], n)
  | or => ([onByte .ora rightByte], n)
  | shl => (shiftCode .asl n, n + 2)
  | shr => (shiftCode .lsr n, n + 2)

def Expr.code (n : Nat) : Expr → Code × Nat
  | term t => (t.load, n)
  | memory a => (a.access .lda, n)
  | complement e =>
    let (inner, n) := e.code n
    (inner ++ [withValue .eor 0xFF], n)
  | binary op left right =>
    let (first, n) := left.code n
    let (second, n) := right.code n
    let (last, n) := op.code n
    (first ++ [onByte .sta leftByte] ++ second ++ [onByte .sta rightByte, onByte .lda leftByte] ++
      last, n)

/-- After a comparison, leaves for a label unless it holds. -/
def Comparison.code (n : Nat) (otherwise : String) : Comparison → Code × Nat
  | eq => ([toLabel .bne otherwise], n)
  | ne => ([toLabel .beq otherwise], n)
  | lt => ([toLabel .bcs otherwise], n)
  | ge => ([toLabel .bcc otherwise], n)
  | gt => ([toLabel .bcc otherwise, toLabel .beq otherwise], n)
  | le =>
    let holds := generatedLabel "CCMPOK" n
    ([toLabel .bcc holds, toLabel .beq holds, toLabel .jmp otherwise, .label holds], n + 1)

def Condition.code (n : Nat) (otherwise : String) (c : Condition) : Code × Nat :=
  let (first, n) := c.left.code n
  let (second, n) := c.right.code n
  let (last, n) := c.op.code n otherwise
  (first ++ [onByte .sta comparedByte] ++ second ++
    [onByte .sta rightByte, onByte .lda comparedByte, onByte .cmp rightByte] ++ last, n)

end Toolchain6502.C
