import Toolchain6502.Command.Assemble
import Toolchain6502.Command.Build
import Toolchain6502.Command.Compile

namespace Toolchain6502

open Files

def tools : List Command.Tool :=
  [Command.assembleTool, Command.compileTool, Command.buildTool]

def placeText (place : List String) : String := "/" ++ String.intercalate "/" place

/-- A directory entry with all that is below it. -/
partial def load (place : List String) (entry : IO.FS.DirEntry) :
    IO (List (List String × Node)) := do
  let here := place ++ [entry.fileName]
  if ← entry.path.isDir then
    let below ← (← entry.path.readDir).mapM (load here)
    return (here, .directory) :: below.toList.flatten
  else
    return [(here, .file (← IO.FS.readBinFile entry.path).toList)]

def loadTree : IO Tree := do
  let directory ← IO.currentDir
  let current := (Path.ofText directory.toString).parts
  let below ← (← directory.readDir).mapM (load current)
  let above := (List.range current.length).map fun k => (current.take (k + 1), Node.directory)
  return { entries := above ++ below.toList.flatten, current }

/-- Writes the files that differ from those that were loaded. -/
def storeChanges (before after : Tree) : IO Unit :=
  after.entries.forM fun (place, node) => do
    unless before.node? place = some node do
      match node with
      | .directory => IO.FS.createDirAll (placeText place)
      | .file bytes =>
        IO.FS.createDirAll (placeText place.dropLast)
        IO.FS.writeBinFile (placeText place) ⟨bytes.toArray⟩

def runTool (tool : Command.Tool) (words : List String) : IO UInt32 := do
  let tree ← loadTree
  let outcome := tool.start tree words
  storeChanges tree outcome.tree
  IO.print outcome.out
  IO.eprint outcome.err
  return UInt32.ofNat outcome.exit

end Toolchain6502

open Toolchain6502 in
def main (words : List String) : IO UInt32 := do
  match words with
  | [] => IO.eprintln "a tool is missing" *> return 2
  | name :: words =>
    match tools.find? (·.usage.tool = name) with
    | some tool => runTool tool words
    | none => IO.eprintln s!"no tool is called {name}" *> return 2
