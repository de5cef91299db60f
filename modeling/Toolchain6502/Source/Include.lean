import Toolchain6502.Source.Files
import Toolchain6502.Source.Traced

namespace Toolchain6502.Source

open Files Text

def canonical (current : List String) (p : Path) : Except Failure Path :=
  match p.resolve? current with
  | some q => .ok q
  | none => .error .nullInPath

def includeMark : List Char := ".include".toList

def isInclude (line : List Char) : Bool := includeMark.isPrefixOf (trimLeft line)

def includeTarget? (line : List Char) : Option (List Char) :=
  match trimLeft ((trimLeft line).drop includeMark.length) with
  | '"' :: rest =>
    match rest.span (· ≠ '"') with
    | (target, _ :: _) => some target
    | (_, []) => none
  | _ => none

def cannotInclude (file reason : String) : Failure :=
  .assembly { fault := .cannotInclude file reason }

def cycleAt (file : Path) : Failure :=
  cannotInclude file.toText s!"include cycle detected at {file.toText}"

/-- A failure without a place happened at the directive. -/
def placeInclude (location : Location) (line : String) : Failure → Failure
  | .assembly d =>
    if d.location.isNone then
      .assembly { d with location := some location, source := some line }
    else .assembly d
  | e => e

/-- Some lines, and the files that are still being expanded after them. -/
abbrev Expanded := List TracedLine × List Path

def expandLine (expandFile : List Path → Path → Except Failure Expanded) (base file : Path)
    (visited : List Path) (number : Nat) (line : String) : Except Failure Expanded :=
  let location : Location := { file := file.toText, line := number }
  if isInclude line.toList then
    match includeTarget? line.toList with
    | none =>
      .error (placeInclude location line
        (cannotInclude file.toText s!"malformed include directive in {file.toText}"))
    | some target =>
      failWith (placeInclude location line)
        (expandFile visited (base.join (Path.ofText (String.ofList target))))
  else .ok ([(line, ⟨file, number⟩)], visited)

def expandLines (expandFile : List Path → Path → Except Failure Expanded) (base file : Path)
    (visited : List Path) (number : Nat) : List String → Except Failure Expanded
  | [] => .ok ([], visited)
  | line :: rest => do
    let (first, visited) ← expandLine expandFile base file visited number line
    let (others, visited) ← expandLines expandFile base file visited (number + 1) rest
    return (first ++ others, visited)

def readIncluded (t : Tree) (p : Path) : Except Failure String :=
  readText t (fun f => cannotInclude p.toText s!"failed to read file: {f.text}") p

/-- The expansion of a text below at most `depth` files that are not being expanded yet. The file
of the text is among the visited ones until its last line is done. -/
def expandWithin (t : Tree) : Nat → List Path → Path → Path → String → Except Failure Expanded
  | depth, visited, base, file, text => do
    let file ← canonical t.current file
    if visited.contains file then throw (cycleAt file)
    match depth with
    | 0 => throw (cycleAt file)
    | depth + 1 =>
      let expandFile (visited : List Path) (p : Path) : Except Failure Expanded := do
        let text ← readIncluded t p
        expandWithin t depth visited p.parent p text
      let (ls, visited) ← expandLines expandFile base file (file :: visited) 1 (lines text)
      return (ls, visited.erase file)

/-- Enough for a chain that passes once through every file after a text that is in none. -/
def includeDepth (t : Tree) : Nat := t.entries.length + 2

/-- The expansion of a text that is named by a path and includes files relative to `base`, with
the files that are being expanded after it. -/
def expandVisiting (t : Tree) (visited : List Path) (base file : Path) (text : String) :
    Except Failure (Traced × List Path) := do
  let (ls, visited) ← expandWithin t (includeDepth t) visited base file text
  return (.ofLines ls, visited)

def expandText (t : Tree) (visited : List Path) (base file : Path) (text : String) :
    Except Failure Traced := do
  return (← expandVisiting t visited base file text).1

def expandFileVisiting (t : Tree) (visited : List Path) (p : Path) :
    Except Failure (Traced × List Path) := do
  let text ← readIncluded t p
  expandVisiting t visited p.parent p text

def expandFile (t : Tree) (visited : List Path) (p : Path) : Except Failure Traced := do
  return (← expandFileVisiting t visited p).1

end Toolchain6502.Source
