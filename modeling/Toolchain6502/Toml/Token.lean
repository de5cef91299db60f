import Toolchain6502.Text.Split
import Toolchain6502.Toml.Fault

namespace Toolchain6502.Toml

open Text

def isSpace (c : Char) : Bool := c = ' ' || c = '\t'

def isSpaceOrBreak (c : Char) : Bool := isSpace c || c = '\n'

def skipSpaces (cs : List Char) : List Char := cs.dropWhile isSpace

/-- A control character has no place on a line, the tab apart. -/
def isIllegal (c : Char) : Bool := (c.toNat < 32 && c ≠ '\t') || c.toNat = 127

def isIllegalInLines (c : Char) : Bool := isIllegal c && c ≠ '\n'

/-- A comment goes on to the end of its line. -/
def skipComment (cs : List Char) : Except Fault (List Char) :=
  match cs with
  | '#' :: rest =>
    match rest.span (· ≠ '\n') with
    | (comment, after) => if comment.any isIllegal then malformed else .ok after
  | _ => .ok cs

/-- Spaces, line breaks and at most `n` comments. -/
def skipFillerWithin : Nat → List Char → Except Fault (List Char)
  | 0, cs => .ok cs
  | n + 1, cs =>
    match cs.dropWhile isSpaceOrBreak with
    | '#' :: rest => do skipFillerWithin n (← skipComment ('#' :: rest))
    | rest => .ok rest

def skipFiller (cs : List Char) : Except Fault (List Char) := skipFillerWithin (cs.length + 1) cs

def escape? : Char → Option Char
  | 'b' => some (Char.ofNat 8)
  | 't' => some '\t'
  | 'n' => some '\n'
  | 'f' => some (Char.ofNat 12)
  | 'r' => some '\r'
  | '"' => some '"'
  | '\\' => some '\\'
  | _ => none

def codePoint? (digits : List Char) : Option Char :=
  let n := positional 16 digits
  if digits.all isHexDigit && n.isValidChar then some (Char.ofNat n) else none

def putChar (c : Option Char) (r : Except Fault (List Char × List Char)) :
    Except Fault (List Char × List Char) := do
  match c with
  | none => malformed
  | some c =>
    let (body, rest) ← r
    return (c :: body, rest)

/-- A string in quotes, after the first one. -/
def readBasic : Reader (List Char)
  | [] => malformed
  | '"' :: rest => .ok ([], rest)
  | '\\' :: 'u' :: a :: b :: c :: d :: rest => putChar (codePoint? [a, b, c, d]) (readBasic rest)
  | '\\' :: 'U' :: a :: b :: c :: d :: e :: f :: g :: h :: rest =>
    putChar (codePoint? [a, b, c, d, e, f, g, h]) (readBasic rest)
  | '\\' :: c :: rest => putChar (escape? c) (readBasic rest)
  | c :: rest => if isIllegal c then malformed else putChar (some c) (readBasic rest)

/-- What a text of several lines skips: nothing, spaces up to the end of a line, or all space. -/
inductive Skipping where
  | nothing
  | spaces
  | all

/-- A string in three quotes, after the first ones. A backslash at the end of a line takes the
space after it away. -/
def readBasicLines : Skipping → Reader (List Char)
  | _, [] => malformed
  | .spaces, c :: rest =>
    if isSpace c then readBasicLines .spaces rest
    else if c = '\n' then readBasicLines .all rest
    else malformed
  | skipping, c :: rest =>
    if (skipping matches .all) && isSpaceOrBreak c then readBasicLines .all rest
    else match c, rest with
      | '"', '"' :: '"' :: after => .ok ([], after)
      | '\\', 'u' :: a :: b :: c :: d :: after =>
        putChar (codePoint? [a, b, c, d]) (readBasicLines .nothing after)
      | '\\', 'U' :: a :: b :: c :: d :: e :: f :: g :: h :: after =>
        putChar (codePoint? [a, b, c, d, e, f, g, h]) (readBasicLines .nothing after)
      | '\\', '\n' :: after => readBasicLines .all after
      | '\\', d :: after =>
        if isSpace d then readBasicLines .spaces after
        else putChar (escape? d) (readBasicLines .nothing after)
      | c, rest =>
        if isIllegalInLines c then malformed else putChar (some c) (readBasicLines .nothing rest)

def readUntil (closing : List Char) (illegal : Char → Bool) : Reader (List Char) := fun cs =>
  match cut? closing cs with
  | none => malformed
  | some (body, rest) => if body.any illegal then malformed else .ok (body, rest)

def readLiteral : Reader (List Char) := readUntil ['\''] isIllegal

/-- Up to two more quotes after a closing of three belong to the string. -/
def moreQuotes (quote : Char) (body : List Char) : List Char → List Char × List Char
  | c :: d :: rest =>
    if c ≠ quote then (body, c :: d :: rest)
    else if d ≠ quote then (body ++ [quote], d :: rest)
    else (body ++ [quote, quote], rest)
  | [c] => if c = quote then (body ++ [quote], []) else (body, [c])
  | [] => (body, [])

def dropBreak : List Char → List Char
  | '\n' :: rest => rest
  | cs => cs

def string? (cs : List Char) : Option (Except Fault (List Char × List Char)) :=
  match cs with
  | '"' :: '"' :: '"' :: rest => some do
    let (body, rest) ← readBasicLines .nothing (dropBreak rest)
    return moreQuotes '"' body rest
  | '"' :: rest => some (readBasic rest)
  | '\'' :: '\'' :: '\'' :: rest => some do
    let (body, rest) ← readUntil ['\'', '\'', '\''] isIllegalInLines (dropBreak rest)
    return moreQuotes '\'' body rest
  | '\'' :: rest => some (readLiteral rest)
  | _ => none

def isBareKeyPart (c : Char) : Bool := c.isAlphanum || c = '-' || c = '_'

def isKeyStart (c : Char) : Bool := isBareKeyPart c || c = '"' || c = '\''

def readKeyPart : Reader String := fun cs =>
  match cs with
  | '"' :: rest => (readBasic rest).map fun (part, rest) => (String.ofList part, rest)
  | '\'' :: rest => (readLiteral rest).map fun (part, rest) => (String.ofList part, rest)
  | _ =>
    match cs.span isBareKeyPart with
    | ([], _) => malformed
    | (part, rest) => .ok (String.ofList part, rest)

/-- At most `n` parts of a key, parted by points. -/
def readKeyWithin : Nat → Reader (List String)
  | 0, _ => malformed
  | n + 1, cs => do
    let (part, rest) ← readKeyPart cs
    match skipSpaces rest with
    | '.' :: rest =>
      let (parts, rest) ← readKeyWithin n (skipSpaces rest)
      return (part :: parts, rest)
    | rest => return ([part], rest)

def readKey : Reader (List String) := fun cs => readKeyWithin (cs.length + 1) cs

end Toolchain6502.Toml
