import Toolchain6502.Source.Traced

namespace Toolchain6502.Source

open Files Text

def errorMark : List Char := ": error: ".toList

def isDecimalDigit (c : Char) : Bool := (decimalValue? c).isSome

/-- The digits of a line number before the mark, perhaps with a column in between. -/
def lineNumber? (cs : List Char) : Option (List Char) :=
  match cs.span isDecimalDigit with
  | ([], _) => none
  | (digits, rest) =>
    if errorMark.isPrefixOf rest then some digits
    else match rest with
      | ':' :: more =>
        match more.span isDecimalDigit with
        | ([], _) => none
        | (_, rest) => if errorMark.isPrefixOf rest then some digits else none
      | _ => none

def findLineNumber? : List Char → Option (List Char)
  | [] => none
  | c :: cs =>
    match if c = ':' then lineNumber? cs else none with
    | some digits => some digits
    | none => findLineNumber? cs

def errorLine? (message : String) : Except Failure (Option Nat) :=
  match findLineNumber? message.toList with
  | none => .ok none
  | some digits => failWith .numeral ((decimal digits).map some)

def errorOrigin? (message : String) (origins : List Origin) : Except Failure (Option Origin) := do
  match ← errorLine? message with
  | some (n + 1) => return origins[n]?
  | _ => return none

def Origin.locate (current : List String) (root : Option Path) (o : Origin) : Location :=
  let file := match root with
    | some root => o.file.shownFrom current root
    | none => o.file
  { file := file.toText, line := o.line }

def afterMark : List Char → List Char
  | [] => []
  | c :: cs =>
    if errorMark.isPrefixOf (c :: cs) then (c :: cs).drop errorMark.length else afterMark cs

def decorate (current : List String) (message : String) (origins : List Origin)
    (root : Option Path) : Except Failure String := do
  match ← errorOrigin? message origins with
  | none => return message
  | some o =>
    let place := o.locate current root
    let rest := String.ofList (afterMark message.toList)
    return s!"{place.file}:{place.line}: error: {rest}"

/-- The first definition of a duplicate stands in the merged text too. -/
def relocateFault (current : List String) (origins : List Origin) (root : Option Path) :
    Assembly.Fault → Assembly.Fault
  | .duplicateSymbol name first =>
    match (Traced.mk "" origins).originOf? first.line with
    | some o => .duplicateSymbol name (o.locate current root)
    | none => .duplicateSymbol name first
  | fault => fault

def relocate (current : List String) (d : Assembly.Diagnostic) (origins : List Origin)
    (root : Option Path) : Except Failure Assembly.Diagnostic := do
  match ← errorOrigin? d.render origins with
  | none => return d
  | some o =>
    return {
      d with
      fault := relocateFault current origins root d.fault
      location := some (o.locate current root) }

end Toolchain6502.Source
