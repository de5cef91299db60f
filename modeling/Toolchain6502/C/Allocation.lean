import Toolchain6502.C.Line
import Toolchain6502.Source.Include

namespace Toolchain6502.C

open Files Source

/-- A file to compile. Reports call it by its name. -/
structure SourceFile where
  path : Path
  text : String
  name : String
deriving DecidableEq, Repr

def SourceFile.ofText (path : Path) (text : String) : SourceFile := ⟨path, text, path.toText⟩

def SourceFile.location (f : SourceFile) (line : SourceLine) : Location :=
  { file := f.name, line := line.number }

structure Variable where
  name : String
  address : Int
  location : Location
deriving DecidableEq, Repr

structure Initializer where
  target : Variable
  expression : String
  file : Path
  source : String
deriving DecidableEq, Repr

def zeroPageBase : Int := 0x40

def zeroPageLimit : Int := 0xFF

structure Allocation where
  /-- The first byte that is free. -/
  next : Int := zeroPageBase
  globals : List Variable := []
  /-- The addresses of all variables, by name in order of the first declaration. -/
  addresses : NameTable Int := []
  initializers : List Initializer := []
  /-- The functions that are defined in some file. -/
  declared : List String := []
deriving DecidableEq, Repr

namespace Allocation

def place (a : Allocation) (name : String) (location : Location) :
    Except Failure (Variable × Allocation) :=
  if a.next ≥ zeroPageLimit then fail (.zeroPageExhausted name)
  else .ok (⟨name, a.next, location⟩,
    { a with next := a.next + 1, addresses := a.addresses.put name a.next })

def addGlobal (a : Allocation) (current : List String) (path : Path) (line : SourceLine)
    (location : Location) (d : Declaration) : Except Failure Allocation := do
  if let some first := a.globals.find? (·.name = d.name) then
    fail (.duplicate .global d.name first.location)
  let (target, a) ← a.place d.name location
  let a := { a with globals := a.globals ++ [target] }
  match d.initial with
  | none => return a
  | some expression =>
    let file ← canonical current path
    return { a with initializers := a.initializers ++ [⟨target, expression, file, line.source⟩] }

/-- A line outside all functions, with the depth of blocks after it. -/
def topLine (a : Allocation) (current : List String) (path : Path) (line : SourceLine)
    (location : Location) : Except Failure (Nat × Allocation) := do
  if (← prototype? line.text).isSome then return (0, a)
  if ← isExternal line.text then return (0, a)
  if let some name ← functionStart? line.text then
    return (1, { a with declared := a.declared ++ [name] })
  match ← declaration? line.text with
  | none => return (0, a)
  | some d => return (0, ← a.addGlobal current path line location d)

def depthAfter (depth : Nat) (text : List Char) : Nat :=
  if text = ['\x7d'] then depth - 1
  else if text.getLast? = some '\x7b' then depth + 1
  else depth

def addLines (current : List String) (file : SourceFile) :
    Nat → Allocation → List SourceLine → Except Failure Allocation
  | _, a, [] => .ok a
  | 0, a, line :: rest => do
    let location := file.location line
    let (depth, a) ← atLine location line.source (a.topLine current file.path line location)
    addLines current file depth a rest
  | depth + 1, a, line :: rest =>
    addLines current file (depthAfter (depth + 1) line.text) a rest

def addFile (current : List String) (a : Allocation) (file : SourceFile) :
    Except Failure Allocation :=
  addLines current file 0 a (sourceLines file.text)

end Allocation

end Toolchain6502.C
