import Toolchain6502.Text.Blank
import Toolchain6502.Text.Numeral

namespace Toolchain6502.Assembly

open Text

def isSymbolStart (c : Char) : Bool := c.isAlpha || c = '_'

def isSymbolPart (c : Char) : Bool := c.isAlphanum || c = '_'

def isSymbol : List Char → Bool
  | [] => false
  | c :: cs => isSymbolStart c && cs.all isSymbolPart

/-- What a value text spells, before its width is asked for. -/
inductive Literal where
  | hex (digits : List Char)
  | binary (digits : List Char)
  | decimal (minus : Bool) (digits : List Char)
  /-- A run of digits that are not all ASCII. -/
  | digits (run : List Char)
  /-- Text in single quotes stands for its first character. -/
  | quoted (first : Char)
  | symbol (name : List Char)
deriving DecidableEq, Repr

def hexLiteral? (ds : List Char) : Option Literal :=
  if !ds.isEmpty && ds.all isHexDigit then some (.hex ds) else none

def binaryLiteral? (ds : List Char) : Option Literal :=
  if !ds.isEmpty && ds.all isBinaryDigit then some (.binary ds) else none

def decimalLiteral? (minus : Bool) (ds : List Char) : Option Literal :=
  if !ds.isEmpty && ds.all Char.isDigit then some (.decimal minus ds) else none

/-- The text after an opening quote: characters other than the quote, then the quote. -/
def quotedLiteral? (rest : List Char) : Option Literal :=
  match rest.span (· ≠ '\'') with
  | (c :: _, ['\'']) => some (.quoted c)
  | _ => none

def plainLiteral? (cs : List Char) : Option Literal :=
  if isSymbol cs then some (.symbol cs)
  else if cs.isEmpty then none
  else if cs.all Char.isDigit then some (.decimal false cs)
  else if cs.all isDigit then some (.digits cs)
  else none

def Literal.read? : List Char → Option Literal
  | '$' :: ds => hexLiteral? ds
  | '0' :: 'x' :: ds => hexLiteral? ds
  | '0' :: 'X' :: ds => hexLiteral? ds
  | '%' :: ds => binaryLiteral? ds
  | '0' :: 'b' :: ds => binaryLiteral? ds
  | '0' :: 'B' :: ds => binaryLiteral? ds
  | '-' :: ds => decimalLiteral? true ds
  | '\'' :: rest => quotedLiteral? rest
  | cs => plainLiteral? cs

inductive Half where
  | low
  | high
deriving DecidableEq, Repr

/-- The value of an operand: a number, a number under a minus sign, a symbol, or one byte of a
symbol. -/
inductive Term where
  | number (n : Nat)
  | minus (n : Nat)
  | symbol (name : String)
  | half (half : Half) (name : String)
deriving DecidableEq, Repr

def Literal.byte? : Literal → Option Term
  | .hex ds => if ds.length ≤ 2 then some (.number (positional 16 ds)) else none
  | .binary ds => if ds.length ≤ 8 then some (.number (positional 2 ds)) else none
  | .decimal minus ds =>
    let n := positional 10 ds
    if ds.length ≤ 3 && n ≤ 0xFF then some (if minus then .minus n else .number n) else none
  | .digits _ => none
  | .quoted c => if c.toNat ≤ 0xFF then some (.number c.toNat) else none
  | .symbol name => some (.symbol (String.ofList name))

/-- A number of at most sixteen bits, of any width or only one too wide for a byte. -/
def wordNumber? (short : Bool) (loose : Bool) (n : Nat) : Option Term :=
  if n ≤ 0xFFFF && (loose || !short) then some (.number n) else none

/-- A word. Loose reading also takes what is written as a byte. -/
def Literal.word? (loose named : Bool) : Literal → Except NumeralFault (Option Term)
  | .hex ds => .ok (wordNumber? (ds.length ≤ 2) loose (positional 16 ds))
  | .binary ds => .ok (wordNumber? (ds.length ≤ 8) loose (positional 2 ds))
  | .decimal false ds | .digits ds => do
    let n ← Text.decimal ds
    return wordNumber? (n ≤ 0xFF) loose n
  | .decimal true _ | .quoted _ => .ok none
  | .symbol name => .ok (if named then some (.symbol (String.ofList name)) else none)

def Literal.number? : Literal → Except NumeralFault (Option Int)
  | .hex ds => .ok (some (positional 16 ds))
  | .binary ds => .ok (some (positional 2 ds))
  | .decimal minus ds => do
    let n ← Text.decimal ds
    return some (if minus then -n else n)
  | .quoted c => .ok (some c.toNat)
  | .digits _ | .symbol _ => .ok none

def byteTerm? (text : List Char) : Option Term := (Literal.read? text).bind Literal.byte?

def wordTerm? (loose named : Bool) (text : List Char) : Except NumeralFault (Option Term) :=
  match Literal.read? text with
  | some l => l.word? loose named
  | none => .ok none

def number? (text : List Char) : Except NumeralFault (Option Int) :=
  match Literal.read? (trim text) with
  | some l => l.number?
  | none => .ok none

end Toolchain6502.Assembly
