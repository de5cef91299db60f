import Toolchain6502.Assembly.Listing
import Toolchain6502.Assembly.Session
import Toolchain6502.Command.Console
import Toolchain6502.Source.Relocation

namespace Toolchain6502.Command

open Assembly Files Source Text

def readDefine (definition : String) : Except Trouble (String × Int) :=
  match cut? ['='] definition.toList with
  | none => .ok (trimmed definition, 1)
  | some (name, value) =>
    match number? value with
    | .error f => .error (.failure (.numeral f))
    | .ok none => .error (.badDefine definition)
    | .ok (some n) => .ok (String.ofList (trim name), n)

def assembleUsage : Usage where
  tool := "chasm"
  argument := "INPUT_FILE"
  arity := .one
  argumentRule := readableFile
  options := [
    outputOption,
    { short := some 'l', long := "--listing", rule := .path writableFile },
    { short := some 's', long := "--symbols", rule := .path writableFile },
    { long := "--origin", rule := .address },
    { short := some 'D', long := "--define", rule := .text },
    verboseOption]

/-- An error in an expanded source is reported where it was written. -/
def assembleInput (t : Tree) (session : Session) (input : Path) : Except Failure Image :=
  match session.assembleFile t input with
  | (.ok _, session) => .ok session.image
  | (.error (.assembly d), session) =>
    match session.expanded with
    | none => .error (.assembly d)
    | some unit => do
      let d ← relocate t.current d unit.origins (some ⟨.root, t.current⟩)
      throw (.assembly d)
  | (.error e, _) => .error e

def writeTextTo (p : Path) (text : String) : Console Unit :=
  Console.onDisk (Disk.writeText (.file · p) p text)

def assembleFileTo (s : Settings) (input output : Path) : Console Unit := do
  let verbose := s.isOn "--verbose"
  let origin := (s.address? "--origin").getD defaultOrigin
  let place := s!"${hex 4 origin}"
  let session ← Console.look fun _ => Session.start origin
  let defines ← (s.texts "--define").mapM fun d => Console.ofResult (readDefine d)
  let session := session.defineAll defines
  Console.sayIf verbose s!"Assembling {input.toText} at {place}..."
  let image ← Console.look fun t => assembleInput t session input
  let size := image.code.length
  Console.onDisk (Disk.writeBytes (.file · output) output image.code)
  Console.sayIf verbose s!"Wrote {size} bytes to {output.toText}"
  if let some listing := s.path? "--listing" then
    writeTextTo listing (image.listing ++ "\n")
    Console.sayIf verbose s!"Wrote listing to {listing.toText}"
  if let some symbols := s.path? "--symbols" then
    writeTextTo symbols image.symbolFile
    Console.sayIf verbose s!"Wrote symbols to {symbols.toText}"
  Console.sayIf verbose s!"Assembly complete: {size} bytes at {place}"
  Console.sayIf verbose s!"Defined {image.symbols.length} symbols"

/-- Without an output the program is written beside its source. -/
def assembleTool : Tool where
  usage := assembleUsage
  activity := "Assembly"
  run s := s.arguments.forM fun input =>
    assembleFileTo s input ((s.path? "--output").getD (input.withSuffix ".bin"))

end Toolchain6502.Command
