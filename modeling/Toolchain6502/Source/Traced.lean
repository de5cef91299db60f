import Toolchain6502.Failure
import Toolchain6502.Files.Path
import Toolchain6502.Text.Lines

namespace Toolchain6502.Source

open Files

structure Origin where
  file : Path
  line : Int
deriving DecidableEq, Repr

def Origin.toText (o : Origin) : String := s!"{o.file.toText}:{o.line}"

abbrev TracedLine := String × Origin

/-- A text with one origin for each line that a line feed ends. -/
structure Traced where
  text : String
  origins : List Origin
deriving DecidableEq, Repr

namespace Traced

def lines (u : Traced) : List String := Text.lines u.text

/-- The text in which every line is closed by a line feed. -/
def ofLines (ls : List TracedLine) : Traced :=
  ⟨String.join (ls.map fun l => l.1 ++ "\n"), ls.map Prod.snd⟩

def originOf? (u : Traced) (line : Int) : Option Origin :=
  if 1 ≤ line then u.origins[(line - 1).toNat]? else none

/-- The origin for the line feed that a unit lacks. -/
def lastOrigin (u : Traced) : Origin := u.origins.getLast?.getD ⟨Path.ofText "asm", 1⟩

/-- The unit with its last line closed. The line feed that is added has an origin of its own. -/
def close (u : Traced) : Traced :=
  if u.text = "" || u.text.toList.getLast? = some '\n' then u
  else ⟨u.text ++ "\n", u.origins ++ [u.lastOrigin]⟩

def merge (first second : Traced) : Traced :=
  let closed := first.close
  ⟨closed.text ++ second.text, closed.origins ++ second.origins⟩

end Traced

def atIndex? (xs : List α) (i : Int) : Option α :=
  if 0 ≤ i then xs[i.toNat]?
  else if 0 ≤ i + xs.length then xs[(i + xs.length).toNat]?
  else none

/-- The origin of every byte, from the line of every byte and the origin of every line. -/
def originMap (lineMap : List Int) (origins : List Origin) : Except Failure (List Origin) :=
  lineMap.mapM fun line =>
    match atIndex? origins (line - 1) with
    | some o => .ok o
    | none => .error .noOrigin

end Toolchain6502.Source
