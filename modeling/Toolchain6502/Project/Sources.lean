import Toolchain6502.C.Files
import Toolchain6502.Project.Settings
import Toolchain6502.Source.Include

namespace Toolchain6502.Project

open Files Source

structure Paths where
  root : Path
  config : Path
  sources : Path
  mainAssembly : Path
  headers : Path
  build : Path
  program : Path
deriving DecidableEq, Repr

/-- The files of a project whose sources are in a directory. -/
def Paths.under (root sources : Path) : Paths :=
  let build := root.child "build"
  { root
    config := root.child configName
    sources
    mainAssembly := sources.child "main.asm"
    headers := sources.child "include"
    build
    program := build.child "program.bin" }

/-- Sources are in `src`, or in `asm` if only that is there. -/
def Paths.find (t : Tree) (root : Path) : Except Failure Paths := do
  let sources := root.child "src"
  let older := root.child "asm"
  if ← finds t sources then return .under root sources
  if ← finds t older then return .under root older
  return .under root sources

def isCSource (p : Path) : Bool := p.suffix = ".c" || p.suffix = ".C"

def Paths.cSources (t : Tree) (ps : Paths) : List Path :=
  if t.isDirectory ps.sources then
    C.orderSources ps.sources ((t.filesBelow ps.sources).filter isCSource)
  else []

def readCSource (t : Tree) (ps : Paths) (p : Path) : Except Failure C.SourceFile := do
  let text ← readText t (fun f => .project (.cannotRead p f)) p
  return ⟨p, text, (C.pathBelow ps.root p).toText⟩

def compileSources (t : Tree) (ps : Paths) (constants : NameTable Number) (sources : List Path) :
    Except Failure Traced := do
  let files ← sources.mapM (readCSource t ps)
  let compiled ← C.compile t.current { constants } files
  return compiled.assembly

def collect (t : Tree) (ps : Paths) (constants : NameTable Number) : Except Failure Traced := do
  let hasAssembly ← finds t ps.mainAssembly
  match ps.cSources t with
  | [] =>
    if hasAssembly then expandFile t [] ps.mainAssembly
    else throw (.project (.noSources ps.mainAssembly ps.sources))
  | sources =>
    let unit ← compileSources t ps constants sources
    if hasAssembly then return (← expandFile t [] ps.mainAssembly).merge unit
    return unit

end Toolchain6502.Project
