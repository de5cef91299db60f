import Toolchain6502.Files.Tree

namespace Toolchain6502.Project

open Files

inductive Fault where
  | cannotRead (path : Path) (reason : FileFault)
  | cannotParse (path : Path)
  | cannotWrite (path : Path) (reason : FileFault)
  | cannotWriteHeaders (directory : Path) (reason : FileFault)
  | noSources (main : Path) (sources : Path)
deriving DecidableEq, Repr

def Fault.message : Fault → String
  | cannotRead path reason => s!"failed to read {path.toText}: {reason.text}"
  | cannotParse path => s!"failed to parse {path.toText}: <toml error>"
  | cannotWrite path reason => s!"failed to write {path.toText}: {reason.text}"
  | cannotWriteHeaders directory reason =>
    s!"failed to write headers in {directory.toText}: {reason.text}"
  | noSources main sources =>
    s!"no sources found: expected {main.toText} or .c files under {sources.toText}"

end Toolchain6502.Project
