import Toolchain6502.C.Scope

namespace Toolchain6502.C

open Text

/-- A base, perhaps with an offset that is known or held by a variable. -/
structure Address where
  base : Number
  offset : Option Term := none
deriving DecidableEq, Repr

/-- The text before the bracket that closes an opened one, if that bracket is the last character
of the text. -/
def bracketBody? (depth : Nat) : List Char → Option (List Char)
  | [] => none
  | c :: cs =>
    match c, depth with
    | ']', 0 => if cs.isEmpty then some [] else none
    | ']', depth + 1 => (bracketBody? depth cs).map (']' :: ·)
    | '[', depth => (bracketBody? (depth + 1) cs).map ('[' :: ·)
    | c, depth => (bracketBody? depth cs).map (c :: ·)

def spriteField? : String → Option Nat
  | "x" => some 0
  | "y" => some 1
  | "tile" => some 2
  | "flags" => some 3
  | "c0" | "color0" => some 4
  | "c1" | "color1" => some 5
  | "c2" | "color2" => some 6
  | "reserved" => some 7
  | _ => none

def spriteSize : Nat := 8

def maxSprite : Nat := 63

def splitSprite? (rest : List Char) : Option (List Char × Nat) :=
  match cut? [']'] rest with
  | none => none
  | some (index, after) =>
    match trimLeft after with
    | '.' :: field =>
      if (trim index).isEmpty then none
      else (spriteField? (String.ofList (trim field))).map fun k => (trim index, k)
    | _ => none

/-- The address of a sprite's byte. One beyond an eight-bit offset is computed here, if the base
of the sprites is known. -/
def spriteAddress (scope : Scope) (offset : Number) : Except NumberFault String := do
  match scope.constant? "SPRITE_RAM", offset.exceeds 0xFF with
  | some base, true =>
    let address ← base.wordSum offset
    return s!"${hex 4 address}"
  | _, _ =>
    let offset ← offset.text
    return s!"SPRITE_RAM + {offset}"

/-- An index without a value makes no access. -/
def spriteAccess (scope : Scope) (rest : List Char) : Except Failure (Option String) :=
  match splitSprite? rest with
  | none => .ok none
  | some (token, field) =>
    match readWord scope token with
    | .error (.c _) => .ok none
    | .error e => .error e
    | .ok index => do
      if index.exceeds maxSprite then
        fail (.spriteRange (← failWith .number index.text))
      let address ← failWith .number (spriteAddress scope ((index.times spriteSize).advance field))
      return some address

def bodyText? (rest : List Char) : Option String :=
  (bracketBody? 0 rest).map fun body => String.ofList (trim body)

/-- The text after the opening of the first form that a text starts with. -/
def afterOpening? (openings : List String) (text : List Char) : Option (List Char) :=
  openings.findSome? fun opening => opening.toList.isPrefixOf? text

def readAccess (scope : Scope) (text : List Char) : Except Failure (Option String) :=
  let text := trim text
  match afterOpening? ["[", "mem[", "data["] text with
  | some rest => .ok (bodyText? rest)
  | none =>
    match afterOpening? ["sprite_data["] text with
    | some rest => .ok ((bodyText? rest).map ("SPRITE_RAM + " ++ ·))
    | none =>
      match afterOpening? ["sprite["] text with
      | some rest => spriteAccess scope rest
      | none => .ok none

/-- A base, or a base and an offset; empty parts around the plus signs are passed over. -/
def readAddress (scope : Scope) (text : List Char) : Except Failure Address :=
  match ((split '+' text).map trim).filter fun part => !part.isEmpty with
  | [base] => do
    let base ← readWord scope base
    return { base }
  | [base, offset] => do
    let base ← readWord scope base
    let offset ← readTerm scope offset
    return { base, offset := some offset }
  | _ => fail .addressForm

end Toolchain6502.C
