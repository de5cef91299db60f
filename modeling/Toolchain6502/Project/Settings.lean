import Toolchain6502.Machine.Headers
import Toolchain6502.Source.Disk
import Toolchain6502.Toml.Document

namespace Toolchain6502.Project

open Files Source

def configName : String := "chipcade.toml"

def tomlFailure (p : Path) : Toml.Fault → Failure
  | .malformed => .project (.cannotParse p)
  | .numeral f => .numeral f

def loadConfig (t : Tree) (p : Path) : Except Failure Machine.Config := do
  let bytes ← readBytes t (fun f => .project (.cannotRead p f)) p
  let text ← failWith .decoding (Text.decodeUtf8 bytes)
  let table ← failWith (tomlFailure p) (Toml.read text)
  failWith .machine (Machine.Config.ofTable table)

/-- A project without a configuration is made for the default machine. -/
def projectConfig (t : Tree) (root : Path) : Except Failure Machine.Config := do
  let p := root.child configName
  if ← finds t p then loadConfig t p else return {}

def assemblyHeaderName : String := "chipcade.inc"

def cHeaderName : String := "chipcade.h"

def writeHeaders (directory : Path) (constants sprites : List Machine.Constant) :
    Disk (Path × Path) := do
  let onFault (f : FileFault) : Failure := .project (.cannotWriteHeaders directory f)
  let forAssembly := directory.child assemblyHeaderName
  let forC := directory.child cHeaderName
  Disk.ensureDirectories onFault directory
  let text ← Disk.look fun _ => failWith .number (Machine.assemblyHeader constants sprites)
  Disk.writeText onFault forAssembly text
  let text ← Disk.look fun _ => failWith .number (Machine.cHeader constants sprites)
  Disk.writeText onFault forC text
  return (forAssembly, forC)

end Toolchain6502.Project
