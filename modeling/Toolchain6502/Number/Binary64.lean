import Toolchain6502.Text.Numeral

namespace Toolchain6502

structure Binary64 where
  bits : UInt64
deriving DecidableEq, Repr

namespace Binary64

def ofFloat (x : Float) : Binary64 := ⟨x.toBits⟩

def value (x : Binary64) : Float := .ofBits x.bits

def zero : Binary64 := ⟨0⟩

def infinity : Binary64 := ⟨0x7FF0000000000000⟩

def nan : Binary64 := ⟨0x7FF8000000000000⟩

def isNegative (x : Binary64) : Bool := x.bits >>> 63 = 1

def negate (x : Binary64) : Binary64 := ⟨x.bits ^^^ 0x8000000000000000⟩

def withSign (minus : Bool) (x : Binary64) : Binary64 := if minus then x.negate else x

/-- The nearest integer to a quotient; a half goes to the even neighbour. -/
def divideNearest (n d : Nat) : Nat :=
  let q := n / d
  let r := n % d
  if 2 * r < d || (2 * r = d && q % 2 = 0) then q else q + 1

def scaled (n d : Nat) (e : Int) : Nat × Nat := (n <<< (-e).toNat, d <<< e.toNat)

def minExponent : Int := -1074

/-- An exponent with which the quotient `n / d` has 53 bits before the point, or fewer if it is the
least one. -/
def exponentFor (n d : Nat) : Int :=
  let e := max ((n.log2 : Int) - d.log2 - 53) minExponent
  let (a, b) := scaled n d e
  if a / b < 1 <<< 53 then e else e + 1

/-- The number nearest to a quotient, if it is not beyond the largest one. A mantissa that is
rounded up to 54 bits carries over to the exponent by itself. -/
def nearest? (n d : Nat) : Option Binary64 :=
  if n = 0 then some zero
  else
    let e := exponentFor n d
    let (a, b) := scaled n d e
    let bits := ((e - minExponent).toNat <<< 52) + divideNearest a b
    if bits < infinity.bits.toNat then some ⟨bits.toUInt64⟩ else none

def ofInt? (n : Int) : Option Binary64 := (nearest? n.natAbs 1).map (withSign (n < 0))

def ofDecimal (digits : List Char) (power : Int) : Binary64 :=
  let digits := digits.dropWhile (· = '0')
  let magnitude := digits.length + power
  if digits.isEmpty || magnitude < -330 then zero
  else if magnitude > 310 then infinity
  else
    let n := Text.positional 10 digits * Nat.pow 10 power.toNat
    (nearest? n (Nat.pow 10 (-power).toNat)).getD infinity

def ofNat (n : Nat) : Binary64 := .ofFloat (.ofNat n)

def add (x y : Binary64) : Binary64 := .ofFloat (x.value + y.value)

def mul (x y : Binary64) : Binary64 := .ofFloat (x.value * y.value)

/-- Half of a number, rounded down. Infinity has no half. -/
def half (x : Binary64) : Binary64 :=
  if x.value.isInf then nan else .ofFloat (x.value / 2).floor

def floor (x : Binary64) : Int := x.value.floor.toInt64.toInt

def exceeds (x : Binary64) (n : Nat) : Bool := x.value > (ofNat n).value

end Binary64

end Toolchain6502
