import Toolchain6502.Failure
import Toolchain6502.NameTable
import Toolchain6502.Text.Numeral
import Toolchain6502.Text.Split

namespace Toolchain6502.C

open Text

/-- Variables with their addresses and constants with their values, in order of declaration. -/
structure Scope where
  addresses : NameTable Int := []
  constants : NameTable Number := []
deriving DecidableEq, Repr

namespace Scope

def address? (s : Scope) (name : String) : Option Int := s.addresses.lookup name

def constant? (s : Scope) (name : String) : Option Number := s.constants.lookup name

def withVariable (s : Scope) (name : String) (address : Int) : Scope :=
  { s with addresses := s.addresses ++ [(name, address)] }

end Scope

def fail (fault : Fault) : Except Failure α := .error (.c { fault })

/-- A fault is reported inside the construct that holds it. -/
def inContext (context : Context) : Except Failure α → Except Failure α
  | .error (.c d) => .error (.c { d with contexts := context :: d.contexts })
  | r => r

/-- A fault whose place is not known yet is at the given line. -/
def atLine (location : Location) (source : String) : Except Failure α → Except Failure α
  | .error (.c d) =>
    if d.location.isNone then
      .error (.c { d with location := some location, source := some source })
    else .error (.c d)
  | r => r

def isIdentifierStart (c : Char) : Bool := c.isAlpha || c = '_'

def isIdentifierPart (c : Char) : Bool := c.isAlphanum || c = '_'

def isIdentifier : List Char → Bool
  | [] => false
  | c :: cs => isIdentifierStart c && cs.all isIdentifierPart

def checkIdentifier (name : List Char) : Except Failure Unit :=
  if name.isEmpty then fail .emptyIdentifier
  else if isIdentifier name then .ok ()
  else fail (.invalidIdentifier (String.ofList name))

def readHex (token digits : List Char) : Except Failure Int :=
  let value := positional 16 digits
  if !digits.isEmpty && digits.all isHexDigit && value ≤ 0xFFFF then .ok value
  else fail (.invalidHex (String.ofList token))

def readDecimal (token : List Char) : Except Failure Int := do
  if !token.isEmpty && token.all Char.isDigit then
    let value ← failWith .numeral (decimal token)
    if value ≤ 0xFFFF then return value
  fail (.unknownToken (String.ofList token))

def readLiteral (token : List Char) : Except Failure Int :=
  match token with
  | '0' :: 'x' :: digits => readHex token digits
  | '$' :: digits => readHex token digits
  | _ => readDecimal token

/-- A value that is known before the program runs: a constant or a literal of sixteen bits. -/
def readWord (scope : Scope) (token : List Char) : Except Failure Number :=
  let name := String.ofList token
  match scope.address? name, scope.constant? name with
  | some _, _ => fail (.variableNotAllowed name)
  | none, some value => .ok value
  | none, none => (readLiteral token).map .whole

/-- A byte that is known, or a variable. -/
inductive Term where
  | immediate (value : Number)
  | byte (address : Int)
deriving DecidableEq, Repr

def readTerm (scope : Scope) (token : List Char) : Except Failure Term :=
  match scope.address? (String.ofList token) with
  | some address => .ok (.byte address)
  | none => do
    let value ← readWord scope token
    if value.exceeds 0xFF then fail (.byteRange (String.ofList token))
    return .immediate value

end Toolchain6502.C
