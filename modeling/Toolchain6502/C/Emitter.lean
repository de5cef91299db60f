import Toolchain6502.C.Emission
import Toolchain6502.Source.Traced

namespace Toolchain6502.C

open Files Source

structure Emitter where
  lines : List (CodeLine × Origin) := []
  /-- The number for the next generated label. -/
  labels : Nat := 0
  /-- The C line that is being compiled. -/
  origin : Origin := ⟨Path.ofText "<c>", 0⟩
deriving DecidableEq, Repr

def codeText (lines : List (CodeLine × Origin)) : Traced :=
  .ofLines (lines.map fun l => (l.1.text, l.2))

namespace Emitter

def moveTo (e : Emitter) (file : Path) (line : Int) : Emitter := { e with origin := ⟨file, line⟩ }

def emit (e : Emitter) (code : Code) : Emitter :=
  { e with lines := e.lines ++ code.map fun line => (line, e.origin) }

def generate (e : Emitter) (code : Nat → Code × Nat) : Emitter :=
  let (code, labels) := code e.labels
  { e.emit code with labels }

def freshLabel (e : Emitter) (stem : String) : String × Emitter :=
  (generatedLabel stem e.labels, { e with labels := e.labels + 1 })

end Emitter

end Toolchain6502.C
