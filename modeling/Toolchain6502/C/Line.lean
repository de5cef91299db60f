import Toolchain6502.C.Scope
import Toolchain6502.Text.Alphanumeric
import Toolchain6502.Text.Lines

namespace Toolchain6502.C

open Text

def stripComment (line : List Char) : List Char :=
  match cut? ['/', '/'] line with
  | some (before, _) => before
  | none => line

structure Declaration where
  name : String
  initial : Option String
deriving DecidableEq, Repr

def afterType? (text : List Char) : Option (List Char) :=
  ["unsigned char ", "signed char "].findSome? fun type => type.toList.isPrefixOf? text

def readDeclared (text : List Char) : Except Failure Declaration := do
  match cut? ['='] text with
  | none =>
    checkIdentifier text
    return ⟨String.ofList text, none⟩
  | some (name, initial) =>
    if (trim initial).isEmpty then fail .expectedInitializer
    checkIdentifier (trim name)
    return ⟨String.ofList (trim name), some (String.ofList (trim initial))⟩

def declaration? (line : List Char) : Except Failure (Option Declaration) :=
  match afterType? (trim line) with
  | none => .ok none
  | some rest =>
    match dropEnd? [';'] rest with
    | none => fail .declarationEnd
    | some body => (readDeclared (trim body)).map some

def isExternal (line : List Char) : Except Failure Bool :=
  let text := trim line
  if !("extern ".toList.isPrefixOf text) then .ok false
  else if text.getLast? = some ';' then .ok true
  else fail .externEnd

def afterVoid? (line : List Char) : Option (List Char) := "void ".toList.isPrefixOf? (trim line)

def splitHead? (rest : List Char) : Option (List Char × List Char) :=
  (cut? ['('] rest).map fun (name, after) => (trim name, trim ('(' :: after))

def prototype? (line : List Char) : Except Failure (Option String) := do
  match (afterVoid? line).bind splitHead? with
  | none => return none
  | some (name, after) =>
    checkIdentifier name
    if ["()".toList, "();".toList].contains after then return some (String.ofList name)
    return none

def functionStart? (line : List Char) : Except Failure (Option String) := do
  match afterVoid? line with
  | none => return none
  | some rest =>
    match splitHead? rest with
    | none => fail .expectedParameters
    | some (name, after) =>
      checkIdentifier name
      if ["() \x7b".toList, "()\x7b".toList].contains after then return some (String.ofList name)
      fail .functionForm

def afterKeyword? (keyword : String) (line : List Char) : Option (List Char) :=
  match keyword.toList.isPrefixOf? (trim line) with
  | none => none
  | some [] => some []
  | some (c :: rest) =>
    if isAlphanumeric c || c = '_' then none else some (trimLeft (c :: rest))

/-- The faults of a header: no parenthesis opens, none closes, no block opens, nothing inside. -/
structure HeaderFaults where
  unopened : Fault
  unclosed : Fault
  noBlock : Fault
  nothing : Fault

/-- The text between the first opening and the last closing parenthesis of a block header. -/
def headerBody (faults : HeaderFaults) (rest : List Char) : Except Failure (List Char) :=
  match cut? ['('] rest with
  | none => fail faults.unopened
  | some (before, _) =>
    match cutLast? ')' rest with
    | none => fail faults.unclosed
    | some (inside, after) =>
      if trim after ≠ ['\x7b'] then fail faults.noBlock
      else if before.length ≥ inside.length then fail faults.nothing
      else .ok (inside.drop (before.length + 1))

def conditionFaults (keyword : String) : HeaderFaults where
  unopened := .expectedCondition keyword
  unclosed := .conditionEnd keyword
  noBlock := .braceOnLine keyword
  nothing := .emptyCondition keyword

def conditionStart? (keyword : String) (line : List Char) : Except Failure (Option String) :=
  match afterKeyword? keyword line with
  | none => .ok none
  | some rest => do
    let body ← headerBody (conditionFaults keyword) rest
    return some (String.ofList (trim body))

/-- The three parts of a `for` header; an empty part is none. -/
structure LoopHeader where
  initial : Option String
  condition : Option String
  step : Option String
deriving DecidableEq, Repr

def loopFaults : HeaderFaults where
  unopened := .expectedLoopHeader
  unclosed := .loopHeaderEnd
  noBlock := .braceOnLine "for"
  nothing := .emptyLoopHeader

def loopPart (part : List Char) : Option String :=
  let text := trim part
  if text.isEmpty then none else some (String.ofList text)

def loopStart? (line : List Char) : Except Failure (Option LoopHeader) :=
  match afterKeyword? "for" line with
  | none => .ok none
  | some rest => do
    let body ← headerBody loopFaults rest
    match (split ';' body).map loopPart with
    | [initial, condition, step] => return some ⟨initial, condition, step⟩
    | _ => fail .loopHeaderParts

def isElse (line : List Char) : Bool :=
  ["else \x7b".toList, "else\x7b".toList].contains (trim line)

/-- A line that is neither blank nor an include, without its comment. -/
structure SourceLine where
  number : Nat
  source : String
  text : List Char
deriving DecidableEq, Repr

def sourceLine? (number : Nat) (source : String) : Option SourceLine :=
  let text := trim (stripComment source.toList)
  if text.isEmpty || "#include".toList.isPrefixOf text then none else some ⟨number, source, text⟩

def sourceLines (text : String) : List SourceLine :=
  (lines text).zipIdx.filterMap fun (source, i) => sourceLine? (i + 1) source

end Toolchain6502.C
