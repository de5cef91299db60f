import Toolchain6502.Assembly.Session
import Toolchain6502.Project.Settings
import Toolchain6502.Source.Relocation

namespace Toolchain6502.Project

open Assembly Files Source Text

/-- What is wrong, and on which line of the edited text if the fault is there. -/
structure Complaint where
  line : Option Int
  message : String
deriving DecidableEq, Repr

def includesHeader (content : String) : Bool :=
  (lines content).any fun line =>
    isInclude line.toList && (cut? assemblyHeaderName.toList (trimLeft line.toList)).isSome

def visibleConstants (t : Tree) (base : Path) (constants : Option (NameTable Number)) :
    Except Failure Traced := do
  let header := (base.child "include").child assemblyHeaderName
  match constants with
  | none => expandFile t [] header
  | some table =>
    let constants := table.map fun (name, value) => ({ name, value } : Machine.Constant)
    expandText t [] base header (← failWith .number (Machine.assemblyHeader constants []))

/-- The text after its prelude, which is left out if the text includes the header itself. -/
def editedUnit (t : Tree) (content : String) (base file : Path)
    (constants : Option (NameTable Number)) : Except Failure Traced := do
  let unit ← expandText t [] base file content
  if includesHeader content then return unit
  return (← visibleConstants t base constants).merge unit

def complaint (t : Tree) (base file : Path) (unit : Traced) (d : Diagnostic) :
    Except Failure Complaint := do
  match ← errorOrigin? d.render unit.origins with
  | none => return ⟨none, d.render⟩
  | some origin =>
    let message ← decorate t.current d.render unit.origins base
    let file ← canonical t.current file
    return ⟨if origin.file = file then some origin.line else none, message⟩

def checkSource (t : Tree) (content : String) (base file : Path)
    (constants : Option (NameTable Number)) (origin : Int) : Except Failure (Option Complaint) :=
  match editedUnit t content base file constants with
  | .error (.assembly d) => .ok (some ⟨none, d.render⟩)
  | .error e => .error e
  | .ok unit =>
    match assembleSource origin unit.text with
    | .error (.assembly d) => (complaint t base file unit d).map some
    | .error e => .error e
    | .ok _ => .ok none

end Toolchain6502.Project
