import Toolchain6502.Report

namespace Toolchain6502.C

inductive Kind where
  | global
  | localVariable
  | function
deriving DecidableEq, Repr

def Kind.name : Kind → String
  | global => "global"
  | localVariable => "local"
  | function => "function"

inductive Fault where
  | emptyIdentifier
  | invalidIdentifier (name : String)
  | invalidHex (token : String)
  | variableNotAllowed (name : String)
  | unknownToken (token : String)
  | byteRange (token : String)
  | spriteRange (index : String)
  | addressForm
  | unexpectedToken (c : Char)
  | expectedBracket
  | emptyExpression
  | trailingToken (token : String)
  | expectedParenthesis
  | unexpectedEnd
  | unexpectedParenthesis
  | missingSide
  | expectedComparison
  | declarationEnd
  | expectedInitializer
  | externEnd
  | expectedParameters
  | functionForm
  | expectedCondition (keyword : String)
  | conditionEnd (keyword : String)
  | emptyCondition (keyword : String)
  | braceOnLine (keyword : String)
  | expectedLoopHeader
  | loopHeaderEnd
  | emptyLoopHeader
  | loopHeaderParts
  | expectedDeclaration
  | unsupportedStatement
  | expectedSemicolon
  | unknownVariable (name : String) (similar : List String)
  | duplicate (kind : Kind) (name : String) (first : Location)
  | zeroPageExhausted (name : String)
  | unterminatedFunction
  | danglingElse
  | unterminatedBlock
deriving DecidableEq, Repr

def Fault.message : Fault → String
  | emptyIdentifier => "empty identifier"
  | invalidIdentifier name => s!"'{name}' is not a valid identifier"
  | invalidHex token => s!"invalid hex literal '{token}'"
  | variableNotAllowed name => s!"variable '{name}' is not allowed in this expression"
  | unknownToken token => s!"unknown token '{token}'"
  | byteRange token => s!"value '{token}' does not fit in 8 bits"
  | spriteRange index => s!"sprite index {index} is out of range (0-63)"
  | addressForm => "only 'BASE' or 'BASE + OFFSET' is supported"
  | unexpectedToken c => s!"unexpected token '{c}'"
  | expectedBracket => "expected ']'"
  | emptyExpression => "empty expression"
  | trailingToken token => s!"trailing token '{token}'"
  | expectedParenthesis => "expected ')'"
  | unexpectedEnd => "unexpected end of expression"
  | unexpectedParenthesis => "unexpected ')'"
  | missingSide => "missing left or right side"
  | expectedComparison => "expected comparison operator"
  | declarationEnd => "expected ';' after declaration"
  | expectedInitializer => "expected initializer expression"
  | externEnd => "extern declaration must end with ';'"
  | expectedParameters => "expected function parameters"
  | functionForm => "only zero-arg 'void Name() \x7b' functions are supported"
  | expectedCondition keyword => s!"expected condition for {keyword}"
  | conditionEnd keyword => s!"expected ')' in {keyword} condition"
  | emptyCondition keyword => s!"empty condition in {keyword}"
  | braceOnLine keyword => keyword ++ " requires '\x7b' on the same line in this C subset"
  | expectedLoopHeader => "expected for-loop parentheses"
  | loopHeaderEnd => "expected ')' in for loop"
  | emptyLoopHeader => "empty for(...) clause"
  | loopHeaderParts => "for requires init; condition; step"
  | expectedDeclaration => "expected global char declaration or function"
  | unsupportedStatement => "unsupported statement"
  | expectedSemicolon => "expected ';'"
  | unknownVariable name _ => s!"unknown variable '{name}'"
  | duplicate kind name _ => s!"duplicate {kind.name} '{name}'"
  | zeroPageExhausted _ => "out of zero-page space for globals/locals"
  | unterminatedFunction => "unterminated function body"
  | danglingElse => "dangling else handling at end of function"
  | unterminatedBlock => "unterminated control-flow block"

def Fault.hint? : Fault → Option String
  | unknownVariable _ similar =>
    let names := String.intercalate ", " (similar.map fun s => s!"'{s}'")
    if similar.isEmpty then none else some s!"did you mean {names}?"
  | duplicate _ name first => some s!"'{name}' was first declared at {first.toText}"
  | zeroPageExhausted name =>
    some s!"no byte left for '{name}'; locals are not freed when a function ends"
  | _ => none

inductive Context where
  | expression (text : String)
  | condition (text : String)
  | callTarget
  | assignmentTarget
  | address
deriving DecidableEq, Repr

def Context.text : Context → String
  | expression text => s!"invalid expression '{text}'"
  | condition text => s!"invalid condition '{text}'"
  | callTarget => "invalid call target"
  | assignmentTarget => "invalid assignment target"
  | address => "invalid address expression"

/-- A fault inside its constructs, the outermost first, at its place. -/
structure Diagnostic where
  fault : Fault
  contexts : List Context := []
  location : Option Location := none
  source : Option String := none
deriving DecidableEq, Repr

def Diagnostic.message (d : Diagnostic) : String :=
  String.intercalate ": " (d.contexts.map Context.text ++ [d.fault.message])

def Diagnostic.render (d : Diagnostic) : String :=
  report d.message d.location d.fault.hint? d.source

end Toolchain6502.C
