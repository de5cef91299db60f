import Toolchain6502.C.Program
import Toolchain6502.Proofs.C.Flow

namespace Toolchain6502.C

structure Function where
  name : String
  body : Flow
deriving DecidableEq, Repr

/-- A block that is open, with all that is known about it before it is closed. The step of a loop
is read where the loop is closed. -/
inductive OpenBlock where
  | thenPart (c : Condition)
  | elsePart (c : Condition) (yes : Flow)
  | whileLoop (c : Condition)
  | forLoop (c : Option Condition) (step : Option String)
deriving DecidableEq, Repr

structure Reading where
  constants : NameTable Number
  allocation : Allocation
  functions : List Function := []
  /-- The function that is being read. -/
  function : Option String := none
  locals : List Variable := []
  /-- What was read of the innermost open block. -/
  inner : Flow := .skip
  /-- The open blocks from the innermost on, each with what stands before it in the block around
  it. -/
  outer : List (OpenBlock × Flow) := []
  /-- An `if` after `inner` that may still get its `else`. -/
  pendingIf : Option (Condition × Flow) := none
deriving DecidableEq, Repr

namespace Reading

def globalScope (r : Reading) : Scope where
  addresses := r.allocation.globals.map fun v => (v.name, v.address)
  constants := r.constants

def scope (r : Reading) : Scope where
  addresses := (r.allocation.globals ++ r.locals).map fun v => (v.name, v.address)
  constants := r.constants

def add (r : Reading) (flow : Flow) : Reading := { r with inner := .seq r.inner flow }

def openBlock (r : Reading) (b : OpenBlock) : Reading :=
  { r with inner := .skip, outer := (b, r.inner) :: r.outer }

def setGlobal (r : Reading) (init : Initializer) : Except Failure Reading := do
  let value ← readExpression r.globalScope init.expression.toList
  return r.add (.act (.assign init.target.address value))

def setGlobals (r : Reading) : Except Failure Reading :=
  r.allocation.initializers.foldlM setGlobal r

def endFunction (r : Reading) (function : String) : Reading :=
  { r with
    functions := r.functions ++ [⟨function, r.inner⟩]
    function := none
    locals := []
    inner := .skip }

/-- The initial values make a function of their own if there is no `Init` to begin with them. -/
def addInit (r : Reading) : Except Failure Reading :=
  if r.allocation.initializers.isEmpty || r.allocation.declared.contains "Init" then .ok r
  else do
    let r ← r.setGlobals
    return r.endFunction "Init"

/-- What a function does before its own statements. -/
def enterFunction (r : Reading) (name : String) : Except Failure Reading :=
  if name = "Init" then r.setGlobals else .ok r

def openFunction (r : Reading) (name : String) : Except Failure Reading := do
  let r ← r.enterFunction name
  return { r with function := some name, locals := [] }

def topLine (r : Reading) (text : List Char) : Except Failure Reading := do
  if (← declaration? text).isSome then return r
  if ← isExternal text then return r
  if (← prototype? text).isSome then return r
  match ← functionStart? text with
  | none => fail .expectedDeclaration
  | some name => r.openFunction name

/-- A declared variable is known from its own initial value on. -/
def declareLocal (r : Reading) (d : Declaration) (location : Location) : Except Failure Reading := do
  let (v, allocation) ← r.allocation.place d.name location
  let r := { r with allocation, locals := r.locals ++ [v] }
  match d.initial with
  | none => return r
  | some text => return r.add (.act (.assign v.address (← readExpression r.scope text.toList)))

def statement (r : Reading) (text : List Char) : Except Failure Reading := do
  return r.add (.act (← readStatement r.scope text))

def part (r : Reading) : Option String → Except Failure Reading
  | none => .ok r
  | some text => r.statement (text.toList ++ [';'])

def condition (r : Reading) (text : String) : Except Failure Condition :=
  readCondition r.scope text.toList

def openFor (r : Reading) (header : LoopHeader) : Except Failure Reading := do
  let r ← r.part header.initial
  match header.condition with
  | none => return r.openBlock (.forLoop none header.step)
  | some text => return r.openBlock (.forLoop (some (← r.condition text)) header.step)

/-- A closing brace ends the innermost block, or else the function. -/
def close (r : Reading) (function : String) : Except Failure Reading := do
  match r.outer with
  | [] => return r.endFunction function
  | (.thenPart c, before) :: outer =>
    return { r with inner := before, outer, pendingIf := some (c, r.inner) }
  | (.elsePart c yes, before) :: outer =>
    return { r with inner := before, outer }.add (.branch c yes r.inner)
  | (.whileLoop c, before) :: outer =>
    return { r with inner := before, outer }.add (.loop .whileLoop (some c) r.inner)
  | (.forLoop c step, before) :: outer =>
    let r ← r.part step
    return { r with inner := before, outer }.add (.loop .forLoop c r.inner)

def bodyLine (r : Reading) (function : String) (text : List Char) (location : Location) :
    Except Failure Reading := do
  if let some d ← declaration? text then return ← r.declareLocal d location
  if let some c ← conditionStart? "if" text then
    return r.openBlock (.thenPart (← r.condition c))
  if let some c ← conditionStart? "while" text then
    return r.openBlock (.whileLoop (← r.condition c))
  if let some header ← loopStart? text then return ← r.openFor header
  if text = ['\x7d'] then r.close function else r.statement text

/-- An `else` right after its `if` opens the other part; any other line ends the `if`. -/
def innerLine (r : Reading) (function : String) (text : List Char) (location : Location) :
    Except Failure Reading :=
  match r.pendingIf with
  | none => r.bodyLine function text location
  | some (c, yes) =>
    let r := { r with pendingIf := none }
    if isElse text then .ok (r.openBlock (.elsePart c yes))
    else (r.add (.branch c yes .skip)).bodyLine function text location

def line (file : SourceFile) (r : Reading) (line : SourceLine) : Except Failure Reading :=
  match r.function with
  | none => r.topLine line.text
  | some function => r.innerLine function line.text (file.location line)

def file (r : Reading) (f : SourceFile) : Except Failure Reading :=
  (sourceLines f.text).foldlM (line f) r

end Reading

/-- The functions of some files, in the order of their definition. Global variables and their
initial values are found before any function is read. -/
def readFunctions (current : List String) (options : Options) (files : List SourceFile) :
    Except Failure (List Function) := do
  let allocation ← files.foldlM (Allocation.addFile current) { next := options.zeroPageBase }
  let r ← Reading.addInit { constants := options.constants, allocation }
  let r ← files.foldlM Reading.file r
  return r.functions

end Toolchain6502.C
