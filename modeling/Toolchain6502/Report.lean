import Toolchain6502.Location
import Toolchain6502.Text.Blank

namespace Toolchain6502

/-- The faulty line, indented, with a caret under the column if one is known. -/
def sourceExcerpt (l : Location) (source : String) : List String :=
  let line := "    " ++ Text.trimmed source
  if l.column > 0 then
    [line, String.ofList (List.replicate (4 + l.column - 1).toNat ' ') ++ "^"]
  else [line]

/-- A faulty line is shown only at a known place, and an empty hint is none. -/
def report (message : String) (location : Option Location) (hint source : Option String) :
    String :=
  let head := match location with
    | some l => s!"{l.toText}: error: {message}"
    | none => s!"error: {message}"
  let excerpt := match location, source with
    | some l, some line => sourceExcerpt l line
    | _, _ => []
  let closing := match hint with
    | some h => if h = "" then [] else [s!"hint: {h}"]
    | none => []
  String.intercalate "\n" (head :: excerpt ++ closing)

end Toolchain6502
