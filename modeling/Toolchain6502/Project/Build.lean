import Toolchain6502.Assembly.Session
import Toolchain6502.Project.Artifacts
import Toolchain6502.Project.Sources
import Toolchain6502.Source.Relocation

namespace Toolchain6502.Project

open Assembly Files Source

/-- Errors in the merged source are reported where it was written. -/
def assembleMerged (t : Tree) (root : Path) (origin : Int) (unit : Traced) :
    Except Failure Image :=
  match assembleSource origin unit.text with
  | .error (.assembly d) => do throw (.assembly (← relocate t.current d unit.origins root))
  | r => r

def assembleProject (root : Path) (config : Option Machine.Config) : Disk Artifacts := do
  let ps ← Disk.look fun t => Paths.find t root
  let config ← match config with
    | some config => pure config
    | none => Disk.look fun t => projectConfig t root
  let layout ← Disk.look fun _ => failWith .machine config.layout
  let _ ← writeHeaders ps.headers layout.system layout.sprites
  let unit ← Disk.look fun t => collect t ps layout.constants
  let image ← Disk.look fun t => assembleMerged t root layout.memory.ram unit
  let origins ← Disk.look fun _ => originMap image.lineMap unit.origins
  return ⟨unit, image, layout.memory.ram.toNat, origins⟩

def buildProject (root : Path) (output : Option Path) (config : Option Machine.Config) :
    Disk Artifacts := do
  let ps ← Disk.look fun t => Paths.find t root
  let artifacts ← assembleProject root config
  let target := output.getD ps.program
  let onFault (f : FileFault) : Failure := .project (.cannotWrite target f)
  Disk.ensureDirectories onFault target.parent
  Disk.writeBytes onFault target artifacts.program
  return artifacts

end Toolchain6502.Project
