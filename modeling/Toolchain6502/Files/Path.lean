import Toolchain6502.Text.Split

namespace Toolchain6502.Files

/-- How a path starts. Exactly two slashes are told apart from one or more than two. -/
inductive Anchor where
  | relative
  | root
  | doubleRoot
deriving DecidableEq, Repr

def Anchor.text : Anchor → String
  | relative => ""
  | root => "/"
  | doubleRoot => "//"

structure Path where
  anchor : Anchor
  parts : List String
deriving DecidableEq, Repr

namespace Path

def anchorOf (cs : List Char) : Anchor :=
  match (cs.takeWhile (· = '/')).length with
  | 0 => .relative
  | 2 => .doubleRoot
  | _ => .root

def ofText (s : String) : Path :=
  let parts := (Text.split '/' s.toList).filter fun part => !part.isEmpty && part != ['.']
  ⟨anchorOf s.toList, parts.map String.ofList⟩

def toText (p : Path) : String :=
  if p.anchor = .relative && p.parts.isEmpty then "."
  else p.anchor.text ++ String.intercalate "/" p.parts

def isAbsolute (p : Path) : Bool := p.anchor != .relative

/-- The second path read from the first; an absolute one stands for itself. -/
def join (p q : Path) : Path := if q.isAbsolute then q else { p with parts := p.parts ++ q.parts }

def child (p : Path) (name : String) : Path := p.join (ofText name)

def parent (p : Path) : Path := { p with parts := p.parts.dropLast }

def name (p : Path) : String := p.parts.getLast?.getD ""

/-- The length of a name before its last point. A point at either end opens no suffix. -/
def suffixStart? (name : List Char) : Option Nat :=
  let after := (name.reverse.takeWhile (· ≠ '.')).length
  let start := name.length - after - 1
  if after < name.length && 0 < after && 0 < start then some start else none

def suffix (p : Path) : String :=
  match suffixStart? p.name.toList with
  | some start => String.ofList (p.name.toList.drop start)
  | none => ""

def withSuffix (p : Path) (suffix : String) : Path :=
  let name := p.name.toList
  let stem := name.take ((suffixStart? name).getD name.length)
  { p with parts := p.parts.dropLast ++ [String.ofList stem ++ suffix] }

def hasNull (p : Path) : Bool := p.parts.any fun part => part.toList.contains (Char.ofNat 0)

/-- `..` takes away the component before it; above the root it has no effect. -/
def normalize (before : List String) : List String → List String
  | [] => before
  | part :: rest => if part = ".." then normalize before.dropLast rest
    else normalize (before ++ [part]) rest

/-- The absolute path without `..`; a null character has no place in one. -/
def resolve? (current : List String) (p : Path) : Option Path :=
  if p.hasNull then none
  else some ⟨.root, normalize [] (if p.isAbsolute then p.parts else current ++ p.parts)⟩

def relativeTo? (p base : Path) : Option Path :=
  if p.anchor = base.anchor && base.parts.isPrefixOf p.parts then
    some ⟨.relative, p.parts.drop base.parts.length⟩
  else none

/-- The path below a root as it is written, else below it once both are resolved, else the bare
name. -/
def shownFrom (p : Path) (current : List String) (root : Path) : Path :=
  match p.relativeTo? root with
  | some r => r
  | none =>
    match p.resolve? current, root.resolve? current with
    | some q, some base => (q.relativeTo? base).getD (ofText p.name)
    | _, _ => ofText p.name

end Path

end Toolchain6502.Files
