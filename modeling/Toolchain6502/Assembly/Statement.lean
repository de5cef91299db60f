import Toolchain6502.Assembly.Fault
import Toolchain6502.Text.Lines
import Toolchain6502.Text.LowerCase

namespace Toolchain6502.Assembly

open Text Cpu

inductive ConstantValue where
  | number (n : Nat)
  /-- The value of a symbol that is defined before. -/
  | copy (name : String)
deriving DecidableEq, Repr

inductive Content where
  | label (name : String)
  | constant (name : String) (value : ConstantValue)
  | instruction (mnemonic : Mnemonic) (operand : Operand)
deriving DecidableEq, Repr

structure Statement where
  content : Content
  location : Location
  source : String
deriving DecidableEq, Repr

/-- Why text could not be read: it is at fault, or it holds a numeral without a value. -/
inductive ReadFailure where
  | fault (d : Diagnostic)
  | numeral (n : NumeralFault)
deriving DecidableEq, Repr

/-- A semicolon outside quotes opens a comment. -/
def stripCommentFrom (quote : Option Char) : List Char → List Char
  | [] => []
  | c :: cs =>
    match quote with
    | some q => c :: stripCommentFrom (if c = q then none else some q) cs
    | none =>
      if c = ';' then []
      else c :: stripCommentFrom (if c = '\'' || c = '"' then some c else none) cs

def stripComment (line : List Char) : List Char := stripCommentFrom none line

/-- A numeral failure passes through; a missing value is a fault. -/
def valueOr (fault : Fault) : Except NumeralFault (Option α) → Except ReadFailure α
  | .ok (some a) => .ok a
  | .ok none => .error (.fault ⟨fault, none, none⟩)
  | .error n => .error (.numeral n)

def readOperand (text : List Char) : Except ReadFailure Operand :=
  valueOr (.invalidOperand (String.ofList (trim text))) (Operand.read? text)

/-- The operand after a mnemonic is set off by a blank. -/
def readOperandAfter : List Char → Except ReadFailure Operand
  | [] => .ok .implied
  | c :: rest =>
    if isBlank c then readOperand (c :: rest)
    else .error (.fault { fault := .invalidOperand (String.ofList (trim (c :: rest))) })

def readInstruction (text : List Char) : Except ReadFailure (Mnemonic × Operand) :=
  match (trimLeft text).span Char.isAlpha with
  | ([], _) =>
    .error (.fault { fault := .expectedInstruction (String.ofList (trim text)) })
  | (letters, rest) =>
    match Mnemonic.ofName? (String.ofList (letters.map Char.toUpper)) with
    | none => .error (.fault { fault := .unknownMnemonic (String.ofList letters) })
    | some mnemonic => do
      let operand ← readOperandAfter rest
      return (mnemonic, operand)

/-- A name and a colon at the head of a text, and what follows them. -/
def splitLabel? (text : List Char) : Option (List Char × List Char) :=
  match text.span isSymbolPart with
  | (name, rest) =>
    match trimLeft rest with
    | ':' :: after => if isSymbol name then some (name, after) else none
    | _ => none

/-- The name of a constant may also hold the four characters outside ASCII that differ from an
ASCII letter only by case. -/
def isConstantLetter (c : Char) : Bool :=
  let n := c.toNat
  n == 0x130 || n == 0x131 || n == 0x17F || n == 0x212A

def isConstantName : List Char → Bool
  | [] => false
  | c :: cs =>
    (isSymbolStart c || isConstantLetter c) && cs.all fun d => isSymbolPart d || isConstantLetter d

def splitConstant? (rest : List Char) : Option (List Char × List Char) :=
  match spanWord (trimLeft rest) with
  | (name, after) =>
    let value := trim after
    if isConstantName name && !value.isEmpty && !value.contains '\n' then some (name, value)
    else none

/-- Sixteen bits hold the value of a constant; a negative one fits in a signed byte. -/
def constantNumber (text : List Char) (n : Int) : Except Fault ConstantValue :=
  if -0x80 ≤ n ∧ n ≤ 0xFFFF then .ok (.number (n % 0x10000).toNat)
  else .error (.constantRange (String.ofList text))

def constantSymbol (text : List Char) : Except Fault ConstantValue :=
  if isSymbol text then .ok (.copy (String.ofList text))
  else .error (.invalidConstant (String.ofList text))

def faultAs : Except Fault α → Except ReadFailure α
  | .ok a => .ok a
  | .error fault => .error (.fault ⟨fault, none, none⟩)

def readConstantValue (text : List Char) : Except ReadFailure ConstantValue :=
  match number? text with
  | .error n => .error (.numeral n)
  | .ok (some n) => faultAs (constantNumber text n)
  | .ok none => faultAs (constantSymbol text)

def readConstant (rest : List Char) : Except ReadFailure Content :=
  match splitConstant? rest with
  | none => .error (.fault { fault := .expectedConstant })
  | some (name, text) => do
    let value ← readConstantValue text
    return .constant (String.ofList name) value

def readDirective (text : List Char) : Except ReadFailure Content :=
  match spanWord text with
  | (word, rest) =>
    let name := String.ofList (lower word)
    if name = ".const" then readConstant rest
    else if name = ".include" then .error (.fault { fault := .unexpandedInclude })
    else .error (.fault { fault := .unknownDirective name })

def readBody (text : List Char) : Except ReadFailure (List Content) :=
  match text with
  | [] => .ok []
  | '.' :: _ => do
    let content ← readDirective text
    return [content]
  | _ => do
    let (mnemonic, operand) ← readInstruction text
    return [.instruction mnemonic operand]

def readContents (line : List Char) : Except ReadFailure (List Content) :=
  let text := trim (stripComment line)
  match splitLabel? text with
  | some (name, after) => do
    let body ← readBody (trim after)
    return .label (String.ofList name) :: body
  | none => readBody text

def ReadFailure.place (location : Location) (source : String) : ReadFailure → ReadFailure
  | fault d => fault { d with location := some location, source := some source }
  | numeral n => numeral n

def readLine (line : String) (location : Location) : Except ReadFailure (List Statement) :=
  match readContents line.toList with
  | .ok contents => .ok (contents.map fun c => ⟨c, location, line⟩)
  | .error e => .error (e.place location line)

def readLinesFrom (file : String) (number : Nat) : List String →
    Except ReadFailure (List Statement)
  | [] => .ok []
  | line :: rest => do
    let first ← readLine line { file, line := number }
    let others ← readLinesFrom file (number + 1) rest
    return first ++ others

def readSource (file : String) (text : String) : Except ReadFailure (List Statement) :=
  readLinesFrom file 1 (lines text)

end Toolchain6502.Assembly
