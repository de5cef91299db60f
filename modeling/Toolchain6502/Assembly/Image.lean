import Toolchain6502.Assembly.Encoding
import Toolchain6502.Assembly.Statement
import Toolchain6502.Assembly.Symbols
import Toolchain6502.Text.Similar

namespace Toolchain6502.Assembly

open Cpu Text

def addressLimit : Nat := 0x10000

def Statement.fail (s : Statement) (fault : Fault) : Diagnostic :=
  ⟨fault, some s.location, some s.source⟩

def lookup (t : Symbols) (s : Statement) (name : String) : Except Diagnostic Nat :=
  match t.find? name with
  | some symbol => .ok symbol.value
  | none => .error (s.fail (.undefinedSymbol name (similarNames name t.names)))

/-- Labels and constants share one table with the predefined symbols. -/
def define (t : Symbols) (s : Statement) (name : String) (value : Nat)
    (definition : Definition) : Except Diagnostic Symbols :=
  match t.find? name with
  | some first => .error (s.fail (.duplicateSymbol name first.location))
  | none => .ok (t ++ [⟨name, value, definition⟩])

def encode (s : Statement) (m : Mnemonic) (o : Operand) : Except Diagnostic Opcode :=
  match encoding? m o with
  | some opcode => .ok opcode
  | none => .error (s.fail (.unsupportedMode m o.shape))

def constantValue (t : Symbols) (s : Statement) : ConstantValue → Except Diagnostic Nat
  | .number n => .ok n
  | .copy name => lookup t s name

def byteOf (n : Int) : UInt8 := UInt8.ofNat (n % 0x100).toNat

def wordBytes (n : Nat) : List UInt8 := [byteOf n, byteOf (n / 0x100)]

def zeroPageByte (t : Symbols) (s : Statement) : Term → Except Diagnostic UInt8
  | .number n => .ok (byteOf n)
  | .minus n => .ok (byteOf (-n))
  | .symbol name | .half _ name => do
    let value ← lookup t s name
    if value ≤ 0xFF then return byteOf value else throw (s.fail (.zeroPageRange name value))

def immediateByte (t : Symbols) (s : Statement) : Term → Except Diagnostic UInt8
  | .number n => .ok (byteOf n)
  | .minus n => .ok (byteOf (-n))
  | .half .low name => return byteOf (← lookup t s name)
  | .half .high name => return byteOf ((← lookup t s name) / 0x100)
  | .symbol name => do
    let value ← lookup t s name
    if value ≤ 0xFF then return byteOf value else throw (s.fail (.immediateRange name value))

def wordOperand (t : Symbols) (s : Statement) : Term → Except Diagnostic (List UInt8)
  | .number n | .minus n => .ok (wordBytes n)
  | .symbol name | .half _ name => return wordBytes (← lookup t s name)

/-- The displacement of a branch. A number is the displacement itself; a symbol is reached from
the end of the branch. -/
def branchByte (t : Symbols) (s : Statement) (next : Nat) : Term → Except Diagnostic UInt8
  | .number n => .ok (byteOf n)
  | .minus n =>
    if n ≤ 128 then .ok (byteOf (-n)) else .error (s.fail (.displacementRange n))
  | .symbol name | .half _ name => do
    let target ← lookup t s name
    let offset : Int := target - next
    if -128 ≤ offset ∧ offset ≤ 127 then return byteOf offset
    else throw (s.fail (.branchRange name offset))

/-- The operand bytes of an instruction in a mode; `next` is the address after it. -/
def operandBytes (t : Symbols) (s : Statement) (next : Nat) (mode : Mode) (term : Term) :
    Except Diagnostic (List UInt8) :=
  match mode with
  | .implied | .accumulator => .ok []
  | .immediate => return [← immediateByte t s term]
  | .relative => return [← branchByte t s next term]
  | .absolute | .absoluteX | .absoluteY | .indirect => wordOperand t s term
  | .zeroPage | .zeroPageX | .zeroPageY | .indexedIndirect | .indirectIndexed =>
    return [← zeroPageByte t s term]

structure Row where
  address : Nat
  bytes : List UInt8
  line : Int
  source : String
deriving DecidableEq, Repr

/-- An assembled unit, with the source line of every byte. -/
structure Image where
  symbols : Symbols := []
  code : List UInt8 := []
  lineMap : List Int := []
  rows : List Row := []
deriving DecidableEq, Repr

def Image.labels (i : Image) : List (String × Nat) := i.symbols.labels

end Toolchain6502.Assembly
