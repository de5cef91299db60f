import Toolchain6502.Text.Printable

namespace Toolchain6502.Text

def lowerHex (width n : Nat) : List Char :=
  let digits := Nat.toDigits 16 n
  List.replicate (width - digits.length) '0' ++ digits

def escapeCode (c : Char) : List Char :=
  let n := c.toNat
  if n < 0x100 then '\\' :: 'x' :: lowerHex 2 n
  else if n < 0x10000 then '\\' :: 'u' :: lowerHex 4 n
  else '\\' :: 'U' :: lowerHex 8 n

def escapeChar (delimiter c : Char) : List Char :=
  if c = delimiter || c = '\\' then ['\\', c]
  else if c = '\n' then ['\\', 'n']
  else if c = '\r' then ['\\', 'r']
  else if c = '\t' then ['\\', 't']
  else if isPrintable c then [c]
  else escapeCode c

/-- Single quotes, or double ones around a text that holds single quotes only. -/
def quote (s : String) : String :=
  let cs := s.toList
  let delimiter := if cs.contains '\'' && !cs.contains '"' then '"' else '\''
  String.ofList (delimiter :: cs.flatMap (escapeChar delimiter) ++ [delimiter])

end Toolchain6502.Text
