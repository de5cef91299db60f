import Toolchain6502.Command.Settings
import Toolchain6502.Source.Disk

namespace Toolchain6502.Command

open Files Source

def toolVersion : String := "1.0.0"

/-- What stops a tool once its command line is read. -/
inductive Trouble where
  | failure (f : Failure)
  | badDefine (definition : String)

structure World where
  tree : Tree
  output : String := ""

abbrev Console := ExceptT Trouble (StateM World)

namespace Console

def say (line : String) : Console Unit :=
  modify fun w => { w with output := w.output ++ line ++ "\n" }

def sayIf (verbose : Bool) (line : String) : Console Unit :=
  if verbose then say line else pure ()

def onDisk (work : Disk α) : Console α := fun w =>
  match work w.tree with
  | (.ok a, tree) => (.ok a, { w with tree })
  | (.error f, tree) => (.error (.failure f), { w with tree })

def ofResult (r : Except Trouble α) : Console α := fun w => (r, w)

def look (f : Tree → Except Failure α) : Console α := onDisk (Disk.look f)

end Console

structure Outcome where
  exit : Nat
  out : String
  err : String
  tree : Tree

/-- How trouble is reported: a fault of the sources, of the command, or of the tool itself. -/
inductive Severity where
  | build
  | command
  | inner
deriving DecidableEq, Repr

def Severity.exit : Severity → Nat
  | build => 1
  | command => 2
  | inner => 3

def severity : Failure → Severity
  | .assembly _ | .c _ | .project _ => .build
  | .file .notFound _ => .command
  | _ => .inner

/-- Faults of a project are introduced by what the tool does. -/
def introduction (activity : String) : Failure → String
  | .project _ => s!"{activity} error: "
  | .assembly _ | .c _ => ""
  | .file .notFound _ => "Error: "
  | _ => "Internal error: "

def Trouble.exit : Trouble → Nat
  | failure f => (severity f).exit
  | badDefine _ => Severity.command.exit

def Trouble.report (activity : String) (verbose : Bool) : Trouble → String
  | failure f =>
    let trace := if verbose && severity f = .inner then "<traceback>\n" else ""
    introduction activity f ++ f.message ++ "\n" ++ trace
  | badDefine definition => s!"Error: invalid value in -D {definition}\n"

/-- A tool: its command line, the name of what it does, and what it does. -/
structure Tool where
  usage : Usage
  activity : String
  run : Settings → Console Unit

def Tool.work (tool : Tool) (t : Tree) (s : Settings) : Outcome :=
  match tool.run s { tree := t } with
  | (.ok _, w) => ⟨0, w.output, "", w.tree⟩
  | (.error trouble, w) =>
    ⟨trouble.exit, w.output, trouble.report tool.activity (s.isOn "--verbose"), w.tree⟩

/-- A request for the version or for help comes before all else on the line. -/
def Tool.notice? (tool : Tool) (g : Given) : Option String :=
  let u := tool.usage
  g.options.findSome? fun (spec, _) =>
    if spec = versionOption then some s!"{u.tool}, version {toolVersion}\n"
    else if spec = helpOption then some s!"Usage: {u.tool} [OPTIONS] {u.argument}\n"
    else none

def Tool.start (tool : Tool) (t : Tree) (words : List String) : Outcome :=
  let refuse (f : UsageFault) : Outcome := ⟨f.exit, "", tool.usage.render f, t⟩
  match splitWords tool.usage.allOptions words with
  | .error f => refuse f
  | .ok g =>
    match tool.notice? g with
    | some text => ⟨0, text, "", t⟩
    | none =>
      match tool.usage.settings t g with
      | .error f => refuse f
      | .ok s => tool.work t s

def readableFile : PathRule := ⟨.file, true⟩

def writableFile : PathRule := ⟨.file, false⟩

def anyDirectory : PathRule := ⟨.directory, true⟩

def outputOption : OptionSpec :=
  { short := some 'o', long := "--output", rule := .path writableFile }

def verboseOption : OptionSpec := { short := some 'v', long := "--verbose", rule := .flag }

end Toolchain6502.Command
