import Toolchain6502.Toml.Fault
import Toolchain6502.Toml.Value

namespace Toolchain6502.Toml

open Text

/-- Digits between which single underscores may stand. -/
def spanDigits (isDigit : Char → Bool) : List Char → List Char × List Char
  | '_' :: c :: cs =>
    if isDigit c then
      match spanDigits isDigit cs with
      | (digits, rest) => (c :: digits, rest)
    else ([], '_' :: c :: cs)
  | c :: cs =>
    if isDigit c then
      match spanDigits isDigit cs with
      | (digits, rest) => (c :: digits, rest)
    else ([], c :: cs)
  | [] => ([], [])

/-- At least one digit; the first of them comes without an underscore. -/
def digits? (isDigit : Char → Bool) (cs : List Char) : Option (List Char × List Char) :=
  match cs with
  | c :: _ => if isDigit c then some (spanDigits isDigit cs) else none
  | [] => none

def isOctalDigit (c : Char) : Bool := '0' ≤ c && c ≤ '7'

def based? (cs : List Char) : Option (Nat × List Char) :=
  let number (base : Nat) (isDigit : Char → Bool) (cs : List Char) :=
    (digits? isDigit cs).map fun (digits, rest) => (positional base digits, rest)
  match cs with
  | '0' :: 'x' :: rest => number 16 isHexDigit rest
  | '0' :: 'b' :: rest => number 2 isBinaryDigit rest
  | '0' :: 'o' :: rest => number 8 isOctalDigit rest
  | _ => none

def takeSign : List Char → Bool × List Char
  | '-' :: rest => (true, rest)
  | '+' :: rest => (false, rest)
  | cs => (false, cs)

/-- The digits before a point; a zero stands alone. -/
def leadingDigits? (cs : List Char) : Option (List Char × List Char) :=
  match cs with
  | '0' :: rest => some (['0'], rest)
  | _ => digits? Char.isDigit cs

def fraction? : List Char → Option (List Char × List Char)
  | '.' :: rest => digits? Char.isDigit rest
  | _ => none

def power? : List Char → Option (Int × List Char)
  | c :: rest =>
    if c = 'e' || c = 'E' then
      let (minus, rest) := takeSign rest
      (digits? Char.isDigit rest).map fun (digits, rest) =>
        let n : Int := positional 10 digits
        (if minus then -n else n, rest)
    else none
  | [] => none

def real? (whole rest : List Char) : Option (Binary64 × List Char) :=
  match fraction? rest with
  | some (part, rest) =>
    match power? rest with
    | some (power, rest) => some (.ofDecimal (whole ++ part) (power - part.length), rest)
    | none => some (.ofDecimal (whole ++ part) (-part.length), rest)
  | none => (power? rest).map fun (power, rest) => (.ofDecimal whole power, rest)

def special? : List Char → Option (Binary64 × List Char)
  | 'i' :: 'n' :: 'f' :: rest => some (.infinity, rest)
  | 'n' :: 'a' :: 'n' :: rest => some (.nan, rest)
  | _ => none

def readDecimal : Reader Value := fun cs =>
  let (minus, cs) := takeSign cs
  match leadingDigits? cs with
  | none =>
    match special? cs with
    | some (x, rest) => .ok (.real (x.withSign minus), rest)
    | none => malformed
  | some (digits, rest) =>
    match real? digits rest with
    | some (x, rest) => .ok (.real (x.withSign minus), rest)
    | none =>
      match decimal digits with
      | .error f => .error (.numeral f)
      | .ok n => .ok (.integer (if minus then -n else n), rest)

def readNumber : Reader Value := fun cs =>
  match based? cs with
  | some (n, rest) => .ok (.integer n, rest)
  | none => readDecimal cs

end Toolchain6502.Toml
