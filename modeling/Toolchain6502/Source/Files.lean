import Toolchain6502.Failure
import Toolchain6502.Files.Tree
import Toolchain6502.Text.Lines

namespace Toolchain6502.Source

open Files Text

def readBytes (t : Tree) (onFault : FileFault → Failure) (p : Path) :
    Except Failure (List UInt8) :=
  if p.hasNull then .error .nullInPath else failWith onFault (t.read p)

def readText (t : Tree) (onFault : FileFault → Failure) (p : Path) : Except Failure String := do
  let bytes ← readBytes t onFault p
  let chars ← failWith .decoding (decodeUtf8 bytes)
  return String.ofList (unifyBreaks chars)

def finds (t : Tree) (p : Path) : Except Failure Bool := failWith (.file · p) (t.finds p)

end Toolchain6502.Source
