import Toolchain6502.Number.Shortest

namespace Toolchain6502

open Text

inductive Number where
  | whole (n : Int)
  | truth (b : Bool)
  | real (x : Binary64)
deriving DecidableEq, Repr

inductive NumberFault where
  /-- A whole number that is larger than every number with a point. -/
  | tooLarge
  /-- A number with a point is not written in hexadecimal. -/
  | noHexForm
  /-- A number with a point has no low bits. -/
  | noBits
  | tooManyDigits
deriving DecidableEq, Repr

def NumberFault.message : NumberFault → String
  | tooLarge => "int too large to convert to float"
  | noHexForm => "Unknown format code 'X' for object of type 'float'"
  | noBits => "unsupported operand type(s) for &: 'float' and 'int'"
  | tooManyDigits =>
    s!"Exceeds the limit ({maxDecimalDigits} digits) for integer string conversion; " ++
      "use sys.set_int_max_str_digits() to increase the limit"

namespace Number

instance : OfNat Number n := ⟨whole n⟩

instance : Coe Int Number := ⟨whole⟩

instance : Inhabited Number := ⟨0⟩

def typeName : Number → String
  | whole _ => "int"
  | truth _ => "bool"
  | real _ => "float"

def int? : Number → Option Int
  | whole n => some n
  | truth b => some (if b then 1 else 0)
  | real _ => none

/-- A number with a point is rounded down. -/
def toInt : Number → Int
  | whole n => n
  | truth b => if b then 1 else 0
  | real x => x.floor

def toReal : Number → Except NumberFault Binary64
  | real x => .ok x
  | n =>
    match Binary64.ofInt? n.toInt with
    | some x => .ok x
    | none => .error .tooLarge

/-- An operation on whole numbers, or else on numbers with a point. -/
def combine (onInts : Int → Int → Int) (onReals : Binary64 → Binary64 → Binary64)
    (x y : Number) : Except NumberFault Number :=
  match x.int?, y.int? with
  | some m, some n => .ok (whole (onInts m n))
  | _, _ => do return real (onReals (← x.toReal) (← y.toReal))

def add (x y : Number) : Except NumberFault Number := combine (· + ·) Binary64.add x y

def mul (x y : Number) : Except NumberFault Number := combine (· * ·) Binary64.mul x y

def advance (x : Number) (n : Nat) : Number :=
  match x with
  | real x => real (x.add (.ofNat n))
  | x => whole (x.toInt + n)

def times (x : Number) (n : Nat) : Number :=
  match x with
  | real x => real (x.mul (.ofNat n))
  | x => whole (x.toInt * n)

def half : Number → Number
  | real x => real x.half
  | x => whole (x.toInt.fdiv 2)

def exceeds (x : Number) (n : Nat) : Bool :=
  match x with
  | real x => x.exceeds n
  | x => x.toInt > n

def wordSum (x y : Number) : Except NumberFault Int := do
  match (← x.add y).int? with
  | some n => return n % 0x10000
  | none => .error .noBits

def text : Number → Except NumberFault String
  | whole n =>
    if n.natAbs < Nat.pow 10 maxDecimalDigits then .ok (toString n) else .error .tooManyDigits
  | truth b => .ok (if b then "True" else "False")
  | real x => .ok x.text

def hexText (width : Nat) (x : Number) : Except NumberFault String :=
  match x.int? with
  | some n => .ok (hex width n)
  | none => .error .noHexForm

end Number

end Toolchain6502
