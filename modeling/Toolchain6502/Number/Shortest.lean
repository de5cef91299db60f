import Toolchain6502.Number.Binary64

namespace Toolchain6502.Binary64

open Text

/-- A finite magnitude `mantissa * 2 ^ exponent`. Below a power of two the numbers lie closer. -/
structure Magnitude where
  mantissa : Nat
  exponent : Int
  closerBelow : Bool
deriving DecidableEq, Repr

def magnitude (x : Binary64) : Magnitude :=
  let exponent := ((x.bits >>> 52) &&& 0x7FF).toNat
  let fraction := (x.bits &&& 0xFFFFFFFFFFFFF).toNat
  if exponent = 0 then ⟨fraction, minExponent, false⟩
  else ⟨(1 <<< 52) + fraction, (exponent : Int) - 1 + minExponent, fraction = 0 && exponent > 1⟩

namespace Magnitude

/-- So many quarters of the last bit, in units that they share with powers of ten. -/
def quarters (m : Magnitude) (power : Int) (n : Nat) : Nat :=
  (n * Nat.pow 10 (-power).toNat) <<< (m.exponent - 2).toNat

def grid (m : Magnitude) (power : Int) (n : Nat) : Nat :=
  (n * Nat.pow 10 power.toNat) <<< (2 - m.exponent).toNat

/-- A decimal reads back if it is no further away than half the way to the next number; just half
the way is near enough for an even mantissa. -/
def readsBack (m : Magnitude) (power : Int) (n : Nat) : Bool :=
  let point := m.grid power n
  let low := m.quarters power (4 * m.mantissa - if m.closerBelow then 1 else 2)
  let high := m.quarters power (4 * m.mantissa + 2)
  if m.mantissa % 2 = 0 then low ≤ point && point ≤ high else low < point && point < high

/-- The nearer neighbour on the grid of a power of ten first. -/
def neighbours (m : Magnitude) (power : Int) : List Nat :=
  let exact := m.quarters power (4 * m.mantissa)
  let step := m.grid power 1
  let below := exact / step
  if divideNearest exact step = below then [below, below + 1] else [below + 1, below]

def leadingPower (m : Magnitude) : Int :=
  let scaled := m.quarters (-330) (4 * m.mantissa) / m.grid (-330) 1
  ((Nat.toDigits 10 scaled).length : Int) - 331

def decimalOf? (m : Magnitude) (power : Int) : Option (Nat × Int) :=
  ((m.neighbours power).find? (m.readsBack power)).map fun n => (n, power)

/-- The fewest digits that read back, with the power of ten of the last one. Seventeen are
enough. -/
def shortest (m : Magnitude) : Nat × Int :=
  let leading := m.leadingPower
  ((List.range 17).findSome? fun k : Nat => m.decimalOf? (leading - k)).getD (0, 0)

end Magnitude

/-- Zeros at the end say nothing, but a digit stays. -/
def dropZeros (digits : List Char) : List Char :=
  match (digits.reverse.dropWhile (· = '0')).reverse with
  | [] => ['0']
  | digits => digits

def zeros (n : Nat) : List Char := List.replicate n '0'

/-- Digits around a point that stands before the digit of that number. -/
def positionalText (digits : List Char) (point : Int) : List Char :=
  if point ≤ 0 then "0.".toList ++ zeros (-point).toNat ++ digits
  else if digits.length ≤ point then
    digits ++ zeros (point.toNat - digits.length) ++ ".0".toList
  else digits.take point.toNat ++ ['.'] ++ digits.drop point.toNat

def exponentText (digits : List Char) (power : Int) : List Char :=
  let fraction := if digits.length = 1 then [] else '.' :: digits.drop 1
  let written := Nat.toDigits 10 power.natAbs
  digits.take 1 ++ fraction ++ ['e', if power < 0 then '-' else '+'] ++
    zeros (2 - written.length) ++ written

/-- Powers of ten from -4 to 15 are written without an exponent. -/
def layOut (digits : List Char) (power : Int) : List Char :=
  if -4 ≤ power && power < 16 then positionalText digits (power + 1)
  else exponentText digits power

def magnitudeText (x : Binary64) : List Char :=
  if x.magnitude.mantissa = 0 then "0.0".toList
  else
    let (n, power) := x.magnitude.shortest
    let digits := Nat.toDigits 10 n
    layOut (dropZeros digits) (power + digits.length - 1)

def text (x : Binary64) : String :=
  let sign := if x.isNegative then "-" else ""
  if x.value.isNaN then "nan"
  else if x.value.isInf then sign ++ "inf"
  else sign ++ String.ofList x.magnitudeText

end Toolchain6502.Binary64
