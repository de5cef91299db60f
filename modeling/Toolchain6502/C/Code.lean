import Toolchain6502.Cpu.Mnemonic
import Toolchain6502.Text.Numeral

namespace Toolchain6502.C

open Cpu Text

inductive CodeOperand where
  | none
  | immediate (value : Int)
  | zeroPage (address : Int)
  | absolute (address : Int)
  | absoluteY (address : Int)
  | label (name : String)
deriving DecidableEq, Repr

inductive CodeLine where
  | label (name : String)
  | instruction (mnemonic : Mnemonic) (operand : CodeOperand)
  /-- An instruction as it was given. -/
  | written (mnemonic operand : String)
  | empty
deriving DecidableEq, Repr

def CodeOperand.text : CodeOperand → String
  | none => ""
  | immediate value => s!"#${hex 2 value}"
  | zeroPage address => s!"${hex 2 address}"
  | absolute address => s!"${hex 4 address}"
  | absoluteY address => s!"${hex 4 address},Y"
  | label name => name

def instructionText (mnemonic operand : String) : String :=
  if operand = "" then "        " ++ mnemonic else "        " ++ padRight 8 mnemonic ++ operand

def CodeLine.text : CodeLine → String
  | label name => name ++ ":"
  | instruction mnemonic operand => instructionText mnemonic.name operand.text
  | written mnemonic operand => instructionText mnemonic operand
  | empty => ""

end Toolchain6502.C
