import Toolchain6502.Assembly.Literal
import Toolchain6502.Files.Tree
import Toolchain6502.Text.Quote
import Toolchain6502.Text.Similar

namespace Toolchain6502.Command

open Files Text

inductive PathKind where
  | file
  | directory
deriving DecidableEq, Repr

structure PathRule where
  kind : PathKind
  mustExist : Bool
deriving DecidableEq, Repr

inductive Rule where
  | flag
  | text
  | address
  | path (rule : PathRule)
deriving DecidableEq, Repr

structure OptionSpec where
  short : Option Char := none
  long : String
  rule : Rule
deriving DecidableEq, Repr

def OptionSpec.shown (o : OptionSpec) : String :=
  match o.short with
  | some c => s!"'-{c}' / '{o.long}'"
  | none => s!"'{o.long}'"

def OptionSpec.takesValue (o : OptionSpec) : Bool := o.rule ≠ .flag

inductive Arity where
  | one
  | many
  | optional (default : String)
deriving DecidableEq, Repr

structure Usage where
  tool : String
  argument : String
  arity : Arity
  argumentRule : PathRule
  options : List OptionSpec
deriving DecidableEq, Repr

def versionOption : OptionSpec := { long := "--version", rule := .flag }

def helpOption : OptionSpec := { long := "--help", rule := .flag }

def Usage.allOptions (u : Usage) : List OptionSpec := u.options ++ [versionOption, helpOption]

inductive PathProblem where
  | missing
  | otherKind
deriving DecidableEq, Repr

inductive UsageFault where
  | noSuchOption (name : String) (similar : List String)
  | needsValue (name : String)
  | takesNoValue (name : String)
  | missingArgument (argument : String)
  | extraArguments (args : List String)
  | invalidPath (parameter : String) (kind : PathKind) (text : String) (problem : PathProblem)
  | invalidAddress (parameter : String) (text : String)
  | numeral (f : NumeralFault)
deriving DecidableEq, Repr

def pathProblemText (kind : PathKind) (problem : PathProblem) (text : String) : String :=
  let shown := quote text
  match kind, problem with
  | .file, .missing => s!"File {shown} does not exist."
  | .file, .otherKind => s!"File {shown} is a directory."
  | .directory, .missing => s!"Directory {shown} does not exist."
  | .directory, .otherKind => s!"Directory {shown} is a file."

def suggestion (similar : List String) : String :=
  let names := String.intercalate ", " (similar.mergeSort fun a b => !(b < a))
  match similar with
  | [] => ""
  | [_] => s!" Did you mean {names}?"
  | _ => s!" (Possible options: {names})"

def UsageFault.message : UsageFault → String
  | noSuchOption name similar => s!"No such option: {name}" ++ suggestion similar
  | needsValue name => s!"Option {quote name} requires an argument."
  | takesNoValue name => s!"Option {quote name} does not take a value."
  | missingArgument argument => s!"Missing argument '{argument}'."
  | extraArguments args =>
    let names := String.intercalate " " args
    match args with
    | [_] => s!"Got unexpected extra argument ({names})"
    | _ => s!"Got unexpected extra arguments ({names})"
  | invalidPath parameter kind text problem =>
    s!"Invalid value for {parameter}: " ++ pathProblemText kind problem text
  | invalidAddress parameter text =>
    s!"Invalid value for {parameter}: '{text}' is not a 16-bit address"
  | numeral f => f.message

/-- The usage is shown with a fault unless the fault is in the form of a single option. -/
def UsageFault.showsUsage : UsageFault → Bool
  | needsValue _ | takesNoValue _ => false
  | _ => true

def Usage.heading (u : Usage) : String :=
  s!"Usage: {u.tool} [OPTIONS] {u.argument}\nTry '{u.tool} --help' for help.\n\n"

/-- A numeral without a value stops a tool before it can report. -/
def Usage.render (u : Usage) (f : UsageFault) : String :=
  match f with
  | .numeral _ => "<traceback>\n"
  | f => (if f.showsUsage then u.heading else "") ++ s!"Error: {f.message}\n"

def UsageFault.exit : UsageFault → Nat
  | numeral _ => 1
  | _ => 2

/-- Options with their values and arguments, in the order in which they are given. -/
structure Given where
  options : List (OptionSpec × String) := []
  arguments : List String := []
deriving DecidableEq, Repr

/-- What one word gives: options, and perhaps one that takes the next word for its value. -/
structure Word where
  options : List (OptionSpec × String) := []
  open? : Option (OptionSpec × String) := none
deriving DecidableEq, Repr

/-- Short options written together. The rest of the word is the value of one that takes one. -/
def readCluster (specs : List OptionSpec) : List Char → Except UsageFault Word
  | [] => .ok {}
  | c :: cs =>
    let name := String.ofList ['-', c]
    match specs.find? (·.short = some c) with
    | none => .error (.noSuchOption name [])
    | some spec =>
      if !spec.takesValue then do
        let word ← readCluster specs cs
        return { word with options := (spec, "") :: word.options }
      else if cs.isEmpty then .ok { open? := some (spec, name) }
      else .ok { options := [(spec, String.ofList cs)] }

def readLong (spec : OptionSpec) (value : Option (List Char)) : Except UsageFault Word :=
  match spec.takesValue, value with
  | true, some value => .ok { options := [(spec, String.ofList value)] }
  | true, none => .ok { open? := some (spec, spec.long) }
  | false, some _ => .error (.takesNoValue spec.long)
  | false, none => .ok { options := [(spec, "")] }

def splitValue (word : List Char) : List Char × Option (List Char) :=
  match cut? ['='] word with
  | some (name, value) => (name, some value)
  | none => (word, none)

def readWord (specs : List OptionSpec) (word : List Char) : Except UsageFault Word :=
  match splitValue word with
  | (name, value) =>
    let name := String.ofList name
    match specs.find? (·.long = name), word with
    | some spec, _ => readLong spec value
    | none, '-' :: '-' :: _ =>
      .error (.noSuchOption name (similarNames name (specs.map OptionSpec.long)))
    | none, _ => readCluster specs (word.drop 1)

def isOptionWord : List Char → Bool
  | '-' :: _ :: _ => true
  | _ => false

/-- Options may follow arguments; two dashes end the options. -/
def splitWords (specs : List OptionSpec) : List String → Except UsageFault Given
  | [] => .ok {}
  | word :: rest =>
    if word = "--" then .ok { arguments := rest }
    else if isOptionWord word.toList then do
      let w ← readWord specs word.toList
      match w.open?, rest with
      | none, rest =>
        let g ← splitWords specs rest
        return { g with options := w.options ++ g.options }
      | some (_, name), [] => throw (.needsValue name)
      | some (spec, _), value :: rest =>
        let g ← splitWords specs rest
        return { g with options := w.options ++ (spec, value) :: g.options }
    else do
      let g ← splitWords specs rest
      return { g with arguments := word :: g.arguments }

end Toolchain6502.Command
