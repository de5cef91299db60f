import Toolchain6502.Command.Usage

namespace Toolchain6502.Command

open Files Text

/-- A path that ends in a slash or a point can only be a directory. -/
def endsAsDirectory (text : String) : Bool :=
  match (split '/' text.toList).getLast? with
  | some part => part = [] || part = ['.']
  | none => true

/-- What a path names, as it is written. -/
def namedNode? (t : Tree) (text : String) : Option Node :=
  if text = "" then none
  else match t.stat (.ofText text) with
    | .ok .directory => some .directory
    | .ok (.file bytes) => if endsAsDirectory text then none else some (.file bytes)
    | .error _ => none

def checkPath (t : Tree) (parameter : String) (rule : PathRule) (text : String) :
    Except UsageFault Path :=
  match namedNode? t text, rule.kind with
  | none, _ =>
    if rule.mustExist then .error (.invalidPath parameter rule.kind text .missing)
    else .ok (.ofText text)
  | some .directory, .file | some (.file _), .directory =>
    .error (.invalidPath parameter rule.kind text .otherKind)
  | _, _ => .ok (.ofText text)

def readAddress? (text : String) : Except NumeralFault (Option Int) := do
  match ← Assembly.number? text.toList with
  | some n => return if 0 ≤ n ∧ n ≤ 0xFFFF then some n else none
  | none => return none

inductive Setting where
  | on
  | text (s : String)
  | address (n : Int)
  | path (p : Path)
deriving DecidableEq, Repr

def readSetting (t : Tree) (spec : OptionSpec) (value : String) : Except UsageFault Setting :=
  match spec.rule with
  | .flag => .ok .on
  | .text => .ok (.text value)
  | .address =>
    match readAddress? value with
    | .ok (some n) => .ok (.address n)
    | .ok none => .error (.invalidAddress spec.shown value)
    | .error f => .error (.numeral f)
  | .path rule => (checkPath t spec.shown rule value).map .path

structure Settings where
  options : List (String × Setting) := []
  arguments : List Path := []
deriving DecidableEq, Repr

namespace Settings

/-- The last of several values counts. -/
def last? (s : Settings) (name : String) : Option Setting :=
  (s.options.reverse.find? (·.1 = name)).map Prod.snd

def isOn (s : Settings) (name : String) : Bool := s.options.any (·.1 = name)

def path? (s : Settings) (name : String) : Option Path :=
  match s.last? name with
  | some (.path p) => some p
  | _ => none

def address? (s : Settings) (name : String) : Option Int :=
  match s.last? name with
  | some (.address n) => some n
  | _ => none

def texts (s : Settings) (name : String) : List String :=
  s.options.filterMap fun
    | (n, .text value) => if n = name then some value else none
    | _ => none

end Settings

/-- Of an option that is given again only the last value is read, in the place of the first. -/
def lastOfEach : List (OptionSpec × String) → List (OptionSpec × String)
  | options =>
    let names := (options.map fun o => o.1.long).eraseDups
    names.flatMap fun name =>
      let same := options.filter fun o => o.1.long = name
      if same.any fun o => o.1.rule = .text then same else same.getLast?.toList

def readOptions (t : Tree) (options : List (OptionSpec × String)) :
    Except UsageFault (List (String × Setting)) :=
  (lastOfEach options).mapM fun (spec, value) => do
    return (spec.long, ← readSetting t spec value)

def takeArguments (u : Usage) (arguments : List String) :
    Except UsageFault (List String × List String) :=
  match u.arity, arguments with
  | .optional default, [] => .ok ([default], [])
  | _, [] => .error (.missingArgument u.argument)
  | .many, arguments => .ok (arguments, [])
  | _, first :: rest => .ok ([first], rest)

def Usage.settings (u : Usage) (t : Tree) (g : Given) : Except UsageFault Settings := do
  let options ← readOptions t g.options
  let (taken, left) ← takeArguments u g.arguments
  let arguments ← taken.mapM (checkPath t s!"'{u.argument}'" u.argumentRule)
  if !left.isEmpty then throw (.extraArguments left)
  return { options, arguments }

end Toolchain6502.Command
