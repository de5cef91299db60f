import Toolchain6502.C.Files
import Toolchain6502.Command.Console
import Toolchain6502.Project.Settings

namespace Toolchain6502.Command

open Files Source

def compileUsage : Usage where
  tool := "chcc"
  argument := "INPUT_FILES..."
  arity := .many
  argumentRule := readableFile
  options := [
    outputOption,
    { short := some 'p', long := "--project", rule := .path anyDirectory },
    verboseOption]

def compileFilesTo (s : Settings) (inputs : List Path) (output : Path) : Console Unit := do
  let verbose := s.isOn "--verbose"
  let root := (s.path? "--project").getD (Path.ofText ".")
  let config ← Console.look fun t => Project.projectConfig t root
  let layout ← Console.look fun _ => failWith .machine config.layout
  let names := String.intercalate ", " (inputs.map Path.toText)
  Console.sayIf verbose s!"Compiling {names}..."
  let compiled ← Console.look fun t => C.compileFiles t layout.constants none inputs
  Console.onDisk (Disk.writeText (.file · output) output compiled.assembly.text)
  let functions :=
    if compiled.functions.isEmpty then "(none)" else String.intercalate ", " compiled.functions
  Console.sayIf verbose s!"Functions: {functions}"
  Console.sayIf verbose s!"Variables: {compiled.addresses.length} zero-page bytes"
  Console.sayIf verbose s!"Wrote {compiled.lines.length} lines to {output.toText}"
  Console.say s!"Compiled {inputs.length} file(s) -> {output.toText}"

/-- Without an output the assembly is written beside the first source. -/
def compileTool : Tool where
  usage := compileUsage
  activity := "Compilation"
  run s :=
    match s.arguments with
    | [] => pure ()
    | first :: rest =>
      compileFilesTo s (first :: rest) ((s.path? "--output").getD (first.withSuffix ".asm"))

end Toolchain6502.Command
