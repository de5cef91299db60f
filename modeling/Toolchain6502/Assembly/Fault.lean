import Toolchain6502.Cpu.Opcode
import Toolchain6502.Assembly.Operand
import Toolchain6502.Report

namespace Toolchain6502.Assembly

open Cpu

inductive Fault where
  | expectedInstruction (found : String)
  | unknownMnemonic (name : String)
  | invalidOperand (text : String)
  | undefinedSymbol (name : String) (similar : List String)
  | duplicateSymbol (name : String) (first : Location)
  | unsupportedMode (mnemonic : Mnemonic) (shape : Shape)
  | branchRange (target : String) (offset : Int)
  | programTooLong
  | zeroPageRange (name : String) (value : Nat)
  | immediateRange (name : String) (value : Nat)
  | displacementRange (magnitude : Nat)
  | expectedConstant
  | constantRange (text : String)
  | invalidConstant (text : String)
  | unexpandedInclude
  | unknownDirective (name : String)
  | cannotInclude (file : String) (reason : String)
deriving DecidableEq, Repr

def quotedName (name : String) : String := s!"'{name}'"

def Fault.message : Fault → String
  | expectedInstruction found => s!"expected instruction, found '{found}'"
  | unknownMnemonic name => s!"unknown mnemonic '{name}'"
  | invalidOperand text => s!"invalid operand '{text}'"
  | undefinedSymbol name _ => s!"undefined symbol '{name}'"
  | duplicateSymbol name _ => s!"duplicate symbol '{name}'"
  | unsupportedMode mnemonic shape =>
    s!"'{mnemonic.name}' does not support {shape.name} addressing mode"
  | branchRange target offset => s!"branch target '{target}' is out of range (offset: {offset})"
  | programTooLong => "program extends past $FFFF"
  | zeroPageRange name value =>
    s!"'{name}' (${Text.hex 4 value}) does not fit in a zero-page operand"
  | immediateRange name value =>
    s!"immediate value '{name}' (${Text.hex 4 value}) does not fit in 8 bits"
  | displacementRange magnitude => s!"branch displacement -{magnitude} is below -128"
  | expectedConstant => "expected '.const NAME value'"
  | constantRange text => s!"constant value '{text}' does not fit in 16 bits"
  | invalidConstant text => s!"invalid constant value '{text}'"
  | unexpandedInclude => ".include must be expanded before assembly"
  | unknownDirective name => s!"unknown directive '{name}'"
  | cannotInclude file reason => s!"cannot include '{file}': {reason}"

def Fault.hint? : Fault → Option String
  | undefinedSymbol _ similar =>
    let names := String.intercalate ", " (similar.map quotedName)
    if similar.isEmpty then none else some s!"did you mean {names}?"
  | duplicateSymbol name first => some s!"'{name}' was first defined at {first.toText}"
  | unsupportedMode mnemonic _ =>
    let modes := String.intercalate ", " (mnemonic.modes.map Mode.name)
    some s!"{mnemonic.name} supports: {modes}"
  | branchRange _ offset =>
    let direction := if offset > 0 then "forward" else "backward"
    some (s!"branch offset is {offset}, but range is -128 to +127; " ++
      s!"consider using JMP for {direction} references")
  | immediateRange name _ => some s!"use #<{name} or #>{name} to select a byte"
  | unexpandedInclude => some "assemble files with assemble_file() or expand_file()"
  | _ => none

/-- A fault at its place, with the line that holds it. -/
structure Diagnostic where
  fault : Fault
  location : Option Location := none
  source : Option String := none
deriving DecidableEq, Repr

def Diagnostic.render (d : Diagnostic) : String :=
  report d.fault.message d.location d.fault.hint? d.source

end Toolchain6502.Assembly
