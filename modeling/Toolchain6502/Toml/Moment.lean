import Toolchain6502.Text.Numeral
import Toolchain6502.Toml.Value

namespace Toolchain6502.Toml

open Text

def fixed? (width : Nat) (cs : List Char) : Option (Nat × List Char) :=
  let digits := cs.take width
  if digits.length = width && digits.all Char.isDigit then
    some (positional 10 digits, cs.drop width)
  else none

def between? (low high : Nat) (cs : List Char) : Option (Nat × List Char) :=
  (fixed? 2 cs).filter fun r => low ≤ r.1 && r.1 ≤ high

def after? (c : Char) (cs : List Char) : Option (List Char) :=
  match cs with
  | d :: rest => if d = c then some rest else none
  | [] => none

def isLeapYear (year : Nat) : Bool := year % 4 = 0 && (year % 100 ≠ 0 || year % 400 = 0)

def daysIn (year month : Nat) : Nat :=
  if month = 2 then if isLeapYear year then 29 else 28
  else if [4, 6, 9, 11].contains month then 30
  else 31

/-- The text after a date; there is no year zero. -/
def afterDate? (cs : List Char) : Option (List Char) := do
  let (year, cs) ← fixed? 4 cs
  let (month, cs) ← between? 1 12 (← after? '-' cs)
  let (_, cs) ← between? 1 (daysIn year month) (← after? '-' cs)
  if year = 0 then none else some cs

def afterFraction (cs : List Char) : List Char :=
  match cs with
  | '.' :: c :: rest => if c.isDigit then rest.dropWhile Char.isDigit else cs
  | _ => cs

def afterTime? (cs : List Char) : Option (List Char) := do
  let (_, cs) ← between? 0 23 cs
  let (_, cs) ← between? 0 59 (← after? ':' cs)
  let (_, cs) ← between? 0 59 (← after? ':' cs)
  return afterFraction cs

/-- A distance to universal time, in hours and minutes. -/
def afterDistance? (cs : List Char) : Option (List Char) := do
  let (_, cs) ← between? 0 23 cs
  let (_, cs) ← between? 0 59 (← after? ':' cs)
  return cs

def afterZone (cs : List Char) : List Char :=
  match cs with
  | c :: rest =>
    if c = 'Z' || c = 'z' then rest
    else if c = '+' || c = '-' then (afterDistance? rest).getD cs
    else cs
  | [] => []

def afterTimeOfDay? (cs : List Char) : Option (List Char) :=
  match cs with
  | c :: rest =>
    if c = 'T' || c = 't' || c = ' ' then (afterTime? rest).map afterZone else none
  | [] => none

def momentKind? (cs : List Char) : Option (MomentKind × List Char) :=
  match afterDate? cs with
  | some rest =>
    match afterTimeOfDay? rest with
    | some rest => some (.dateTime, rest)
    | none => some (.date, rest)
  | none => (afterTime? cs).map fun rest => (.time, rest)

def moment? (cs : List Char) : Option (Value × List Char) :=
  (momentKind? cs).map fun (kind, rest) =>
    (.moment kind (String.ofList (cs.take (cs.length - rest.length))), rest)

end Toolchain6502.Toml
