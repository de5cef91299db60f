import Toolchain6502.C.Program
import Toolchain6502.Source.Disk

namespace Toolchain6502.C

open Files Source

/-- The path of a source below a directory, or the whole path if it lies elsewhere. -/
def pathBelow (root p : Path) : Path := (p.relativeTo? root).getD p

def mainFile : Path := Path.ofText "main.c"

/-- `main.c` comes first, the other sources by their paths below the directory. -/
def comesBefore (root p q : Path) : Bool :=
  let p := pathBelow root p
  let q := pathBelow root q
  if p = mainFile then true
  else if q = mainFile then false
  else !(q.toText < p.toText)

def orderSources (root : Path) (paths : List Path) : List Path :=
  paths.mergeSort (comesBefore root)

def readSource (t : Tree) (p : Path) : Except Failure String := readText t (.file · p) p

def readBelow (t : Tree) (root p : Path) : Except Failure SourceFile := do
  let text ← readSource t p
  return ⟨p, text, (pathBelow root p).toText⟩

/-- Several files compiled to one unit. The directory of the first one stands for a missing
root. -/
def compileFiles (t : Tree) (constants : NameTable Number) (root : Option Path)
    (paths : List Path) : Except Failure Compiled := do
  let root := root.getD ((paths.head?.map Path.parent).getD (Path.ofText "."))
  let files ← (orderSources root paths).mapM (readBelow t root)
  compile t.current { constants } files

def compileFile (t : Tree) (options : Options) (p : Path) : Except Failure Compiled := do
  let text ← readSource t p
  compile t.current options [.ofText p text]

/-- The assembly of a file, which is also written out if an output is named. -/
def compileTo (options : Options) (p : Path) (output : Option Path) : Disk String := do
  let compiled ← Disk.look fun t => compileFile t options p
  let text := compiled.assembly.text
  match output with
  | none => pure ()
  | some output => Disk.writeText (.file · output) output text
  return text

end Toolchain6502.C
