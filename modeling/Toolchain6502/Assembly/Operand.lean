import Toolchain6502.Assembly.Literal
import Toolchain6502.Cpu.Mode

namespace Toolchain6502.Assembly

open Text Cpu

/-- The addressing form of an operand. A lone byte or symbol is an address or a displacement
depending on the mnemonic. -/
inductive Shape where
  | fixed (mode : Mode)
  | direct
deriving DecidableEq, Repr

def Shape.name : Shape → String
  | fixed mode => mode.name
  | direct => "zero-page/relative"

structure Operand where
  shape : Shape
  term : Term := .number 0
deriving DecidableEq, Repr

def Operand.implied : Operand := ⟨.fixed .implied, .number 0⟩

def Operand.symbol? (o : Operand) : Option String :=
  match o.term with
  | .symbol name | .half _ name => some name
  | .number _ | .minus _ => none

/-- The text between an opening and a closing parenthesis, trimmed. -/
def insideParens? : List Char → Option (List Char)
  | '(' :: rest =>
    match rest.reverse with
    | ')' :: inner => some (trim inner.reverse)
    | _ => none
  | _ => none

/-- The text before a comma and an index register, trimmed on the right. -/
def beforeIndex? (register : Char) (text : List Char) : Option (List Char) :=
  match text.reverse with
  | c :: rest =>
    if c.toUpper = register then
      match rest.dropWhile isBlank with
      | ',' :: body => some (body.dropWhile isBlank).reverse
      | _ => none
    else none
  | [] => none

/-- A value inside punctuation stays on one line. -/
def oneLine? (text : List Char) : Option (List Char) :=
  if text.contains '\n' then none else some text

/-- An addressing form: the value text inside its punctuation, and how the value is read. -/
structure Form where
  shape : Shape
  body? : List Char → Option (List Char)
  term? : List Char → Except NumeralFault (Option Term)

def byteForm (mode : Mode) (body? : List Char → Option (List Char)) : Form :=
  ⟨.fixed mode, fun text => (body? text).bind oneLine?, fun body => .ok (byteTerm? body)⟩

def wordForm (mode : Mode) (loose : Bool) (body? : List Char → Option (List Char)) : Form :=
  ⟨.fixed mode, fun text => (body? text).bind oneLine?, wordTerm? loose true⟩

def accumulatorForm : Form where
  shape := .fixed .accumulator
  body? text := if text = ['A'] || text = ['a'] then some [] else none
  term? _ := .ok (some (.number 0))

/-- One byte of a symbol after a selecting sign, or a byte. -/
def immediateTerm? : List Char → Option Term
  | '<' :: name => if isSymbol name then some (.half .low (String.ofList name)) else none
  | '>' :: name => if isSymbol name then some (.half .high (String.ofList name)) else none
  | body => byteTerm? body

def immediateForm : Form where
  shape := .fixed .immediate
  body? text := match text with
    | '#' :: body => some (trim body)
    | _ => none
  term? body := .ok (immediateTerm? body)

/-- A plain word is a number: a bare symbol is left to the last form. -/
def absoluteForm : Form where
  shape := .fixed .absolute
  body? := some
  term? := wordTerm? false false

def directForm : Form where
  shape := .direct
  body? := some
  term? body := .ok (byteTerm? body)

def forms : List Form := [
  accumulatorForm,
  immediateForm,
  byteForm .indirectIndexed fun text => (beforeIndex? 'Y' text).bind insideParens?,
  byteForm .indexedIndirect fun text => (insideParens? text).bind (beforeIndex? 'X'),
  wordForm .indirect true insideParens?,
  wordForm .absoluteX false (beforeIndex? 'X'),
  wordForm .absoluteY false (beforeIndex? 'Y'),
  absoluteForm,
  byteForm .zeroPageX (beforeIndex? 'X'),
  byteForm .zeroPageY (beforeIndex? 'Y'),
  directForm]

def Form.read? (f : Form) (text : List Char) : Except NumeralFault (Option Operand) :=
  match f.body? text with
  | none => .ok none
  | some body => do
    let term ← f.term? body
    return term.map fun t => ⟨f.shape, t⟩

def firstForm? (text : List Char) : List Form → Except NumeralFault (Option Operand)
  | [] => .ok none
  | f :: rest => do
    match ← f.read? text with
    | some operand => return some operand
    | none => firstForm? text rest

/-- The operand that a text spells; a blank text is the implied operand. -/
def Operand.read? (text : List Char) : Except NumeralFault (Option Operand) :=
  if (trim text).isEmpty then .ok (some .implied) else firstForm? (trim text) forms

end Toolchain6502.Assembly
