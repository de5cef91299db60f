import Toolchain6502.Source.Files

namespace Toolchain6502.Source

open Files

abbrev Disk := ExceptT Failure (StateM Tree)

namespace Disk

def look (f : Tree → Except Failure α) : Disk α := fun t => (f t, t)

/-- Work at a path. A fault does not undo what was done before it. -/
def attempt (onFault : FileFault → Failure) (p : Path)
    (work : Tree → Except FileFault Unit × Tree) : Disk Unit := fun t =>
  if p.hasNull then (.error .nullInPath, t)
  else
    let (result, t) := work t
    (failWith onFault result, t)

def ensureDirectories (onFault : FileFault → Failure) (p : Path) : Disk Unit :=
  attempt onFault p (·.ensureDirectories p)

def writeBytes (onFault : FileFault → Failure) (p : Path) (bytes : List UInt8) : Disk Unit :=
  attempt onFault p (·.write p bytes)

def writeText (onFault : FileFault → Failure) (p : Path) (text : String) : Disk Unit :=
  writeBytes onFault p (Text.encodeUtf8 text.toList)

end Disk

end Toolchain6502.Source
