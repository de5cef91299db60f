import Toolchain6502.C.Emission
import Toolchain6502.Text.Similar

namespace Toolchain6502.C

open Cpu Text

inductive Statement where
  | leave
  | call (name : String)
  | increment (address : Int)
  | decrement (address : Int)
  | assign (address : Int) (value : Expr)
  | store (address : Address) (value : Expr)
deriving DecidableEq, Repr

/-- These functions are run by the machine and end by a break. -/
def isEntry (function : String) : Bool := function = "Init" || function = "Update"

def leaveCode (function : String) : CodeLine := plain (if isEntry function then .brk else .rts)

def Statement.code (function : String) (n : Nat) : Statement → Code × Nat
  | leave => ([leaveCode function], n)
  | call name => ([toLabel .jsr name], n)
  | increment address => ([onByte .inc address], n)
  | decrement address => ([onByte .dec address], n)
  | assign address value =>
    let (code, n) := value.code n
    (code ++ [onByte .sta address], n)
  | store address value =>
    let (code, n) := value.code n
    (code ++ address.access .sta, n)

def Statement.check : Statement → Except NumberFault Unit
  | assign _ value => value.check
  | store address value => do
    value.check
    address.check
  | _ => .ok ()

def findVariable (scope : Scope) (name : List Char) : Except Failure Int :=
  let name := String.ofList name
  match scope.address? name with
  | some address => .ok address
  | none => fail (.unknownVariable name (similarNames name (scope.addresses.map Prod.fst)))

def readTarget (scope : Scope) (text : String) : Except Failure Address :=
  inContext .address (readAddress scope text.toList)

/-- An access that stands alone is the value at its address. -/
def readValue (scope : Scope) (text : List Char) : Except Failure Expr := do
  match ← readAccess scope text with
  | some address => return .memory (← readTarget scope address)
  | none => readExpression scope text

def readAssignment (scope : Scope) (left right : List Char) : Except Failure Statement := do
  match ← readAccess scope left with
  | some address =>
    let address ← readTarget scope address
    return .store address (← readExpression scope right)
  | none =>
    inContext .assignmentTarget (checkIdentifier left)
    let address ← findVariable scope left
    return .assign address (← readValue scope right)

def callTarget? (text : List Char) : Option (List Char) :=
  (dropEnd? "();".toList text).map trim

def readStatement (scope : Scope) (text : List Char) : Except Failure Statement := do
  let text := trim text
  if text = "return;".toList then return .leave
  if let some name := callTarget? text then
    inContext .callTarget (checkIdentifier name)
    return .call (String.ofList name)
  if let some name := dropEnd? "++;".toList text then
    return .increment (← findVariable scope (trim name))
  if let some name := dropEnd? "--;".toList text then
    return .decrement (← findVariable scope (trim name))
  match cut? ['='] text with
  | none => fail .unsupportedStatement
  | some (left, right) =>
    match dropEnd? [';'] (trim right) with
    | none => fail .expectedSemicolon
    | some value => readAssignment scope (trim left) (trim value)

end Toolchain6502.C
