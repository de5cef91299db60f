import Toolchain6502.Assembly.Image

namespace Toolchain6502.Assembly

open Cpu

/-- A two-pass generator. The image is the one of the last statements that it was given. -/
structure Generator where
  origin : Nat
  predefined : Symbols := []
  /-- The address of the next instruction. -/
  pc : Nat := origin
  image : Image := {}
deriving DecidableEq, Repr

abbrev Generation := ExceptT Diagnostic (StateM Generator)

namespace Generator

def reset (g : Generator) : Generator :=
  { g with pc := g.origin, image := { symbols := g.predefined } }

def toOrigin (g : Generator) : Generator := { g with pc := g.origin }

def skip (size : Nat) (g : Generator) : Generator := { g with pc := g.pc + size }

def withSymbols (symbols : Symbols) (g : Generator) : Generator :=
  { g with image := { g.image with symbols } }

def withBytes (bytes : List UInt8) (g : Generator) : Generator :=
  { g with image := { g.image with code := g.image.code ++ bytes } }

/-- The bytes behind the first `count` belong to a statement at an address. -/
def withRow (s : Statement) (address count : Nat) (g : Generator) : Generator :=
  let bytes := g.image.code.drop count
  { g with
    image := { g.image with
      lineMap := g.image.lineMap ++ List.replicate bytes.length s.location.line
      rows := g.image.rows ++ [⟨address, bytes, s.location.line, s.source⟩] } }

def enter (s : Statement) (name : String) (value : Nat) (definition : Definition) :
    Generation Unit := do
  let symbols ← liftExcept (define (← get).image.symbols s name value definition)
  modify (withSymbols symbols)

/-- A label gets the address that the sizes before it lead to. -/
def layNext (s : Statement) : Generation Unit := do
  match s.content with
  | .label name => enter s name (← get).pc (.label s.location)
  | .constant name value =>
    let n ← liftExcept (constantValue (← get).image.symbols s value)
    enter s name n (.constant s.location)
  | .instruction m o =>
    let opcode ← liftExcept (encode s m o)
    modify (skip opcode.size)
    if addressLimit < (← get).pc then throw (s.fail .programTooLong)

def emitInstruction (s : Statement) (m : Mnemonic) (o : Operand) : Generation Unit := do
  let opcode ← liftExcept (encode s m o)
  modify (withBytes [opcode.code])
  let g ← get
  let operand ← liftExcept
    (operandBytes g.image.symbols s (g.pc + opcode.size) opcode.mode o.term)
  modify (withBytes operand)
  modify (skip opcode.size)

def emitNext (s : Statement) : Generation Unit := do
  match s.content with
  | .label _ | .constant _ _ => return
  | .instruction m o =>
    let before ← get
    emitInstruction s m o
    modify (withRow s before.pc before.image.code.length)

def passes (statements : List Statement) : Generation Unit := do
  modify toOrigin
  statements.forM layNext
  modify toOrigin
  statements.forM emitNext

/-- Statements at fault leave no image behind. -/
def generate (statements : List Statement) : Generation (List UInt8) := do
  modify reset
  try passes statements catch d => modify reset; throw d
  return (← get).image.code

end Generator

/-- The image of some statements on a generator of their own. -/
def assemble (origin : Nat) (predefined : Symbols) (statements : List Statement) :
    Except Diagnostic Image :=
  let (result, g) := Generator.generate statements { origin, predefined }
  result.map fun _ => g.image

end Toolchain6502.Assembly
