import Toolchain6502.Text.Digit

namespace Toolchain6502.Text

def isBinaryDigit (c : Char) : Bool := c = '0' || c = '1'

def isHexDigit (c : Char) : Bool :=
  c.isDigit || ('a' ≤ c && c ≤ 'f') || ('A' ≤ c && c ≤ 'F')

def digitValue (c : Char) : Nat :=
  if c.isDigit then c.toNat - '0'.toNat
  else if 'a' ≤ c && c ≤ 'f' then c.toNat - 'a'.toNat + 10
  else c.toNat - 'A'.toNat + 10

def positional (base : Nat) (digits : List Char) : Nat :=
  digits.foldl (fun n c => n * base + digitValue c) 0

/-- A decimal numeral that has no value. -/
inductive NumeralFault where
  | tooLong (digits : Nat)
  | notDecimal (text : List Char)
deriving DecidableEq, Repr

/-- The longest decimal numeral that is read, counted with its leading zeros. -/
def maxDecimalDigits : Nat := 4300

def NumeralFault.message : NumeralFault → String
  | .tooLong digits =>
    s!"Exceeds the limit ({maxDecimalDigits} digits) for integer string conversion: " ++
      s!"value has {digits} digits; use sys.set_int_max_str_digits() to increase the limit"
  | .notDecimal text =>
    "invalid literal for int() with base 10: " ++
      String.ofList (('\'' :: text ++ ['\'']).take 200)

/-- The number that decimal digits of any script spell. The digits before the first one that is
not decimal are counted before anything else is refused. -/
def decimal (text : List Char) : Except NumeralFault Nat :=
  let values := (text.takeWhile fun c => (decimalValue? c).isSome).filterMap decimalValue?
  if values.length > maxDecimalDigits then .error (.tooLong values.length)
  else if values.length < text.length then .error (.notDecimal text)
  else .ok (values.foldl (fun n d => n * 10 + d) 0)

def upperHex (n : Nat) : List Char := (Nat.toDigits 16 n).map Char.toUpper

/-- Upper-case hexadecimal, filled with zeros to a width in which a minus sign counts. -/
def hex (width : Nat) (n : Int) : String :=
  let digits := upperHex n.natAbs
  let sign := if n < 0 then ['-'] else []
  String.ofList (sign ++ List.replicate (width - sign.length - digits.length) '0' ++ digits)

def padRight (width : Nat) (s : String) : String :=
  s ++ String.ofList (List.replicate (width - s.length) ' ')

def padLeft (width : Nat) (s : String) : String :=
  String.ofList (List.replicate (width - s.length) ' ') ++ s

end Toolchain6502.Text
