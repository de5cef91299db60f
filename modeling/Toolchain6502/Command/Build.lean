import Toolchain6502.Command.Console
import Toolchain6502.Project.Build

namespace Toolchain6502.Command

open Files Source Text

def buildUsage : Usage where
  tool := "chbuild"
  argument := "[PROJECT_DIR]"
  arity := .optional "."
  argumentRule := anyDirectory
  options := [outputOption, { long := "--map", rule := .flag }, verboseOption]

def entryLine (entry : Option Nat) : String :=
  match entry with
  | some address => s!"Entry point: ${hex 4 address}"
  | none => "Entry point: none (no Init or Update label)"

def buildIn (s : Settings) (root : Path) : Console Unit := do
  let verbose := s.isOn "--verbose"
  Console.sayIf verbose s!"Building {root.toText}..."
  let artifacts ← Console.onDisk (Project.buildProject root (s.path? "--output") none)
  Console.sayIf verbose s!"Labels: {artifacts.image.labels.length}"
  Console.sayIf verbose (entryLine artifacts.entryPoint)
  if s.isOn "--map" then
    let current := (← get).tree.current
    (artifacts.sourceMap current root).forM Console.say
  Console.say s!"Built {artifacts.program.length} bytes at ${hex 4 artifacts.loadAddress}"

def buildTool : Tool where
  usage := buildUsage
  activity := "Build"
  run s := s.arguments.forM (buildIn s)

end Toolchain6502.Command
