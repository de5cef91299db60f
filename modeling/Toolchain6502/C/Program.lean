import Toolchain6502.C.Allocation
import Toolchain6502.C.Emitter
import Toolchain6502.C.Statement

namespace Toolchain6502.C

open Files Source

inductive Block where
  | thenPart (elseLabel endLabel : String)
  | elsePart (endLabel : String)
  | whileLoop (startLabel endLabel : String)
  | forLoop (startLabel endLabel : String) (step : Option String)
deriving DecidableEq, Repr

structure Pass where
  constants : NameTable Number
  allocation : Allocation
  functions : List (String × Location) := []
  emitter : Emitter := {}
  /-- The function whose body is being compiled. -/
  function : Option String := none
  locals : List Variable := []
  /-- The open blocks, the innermost first. -/
  blocks : List Block := []
  /-- The end of an `if` that may still get its `else`. -/
  pendingEnd : Option String := none
deriving DecidableEq, Repr

namespace Pass

def globalScope (p : Pass) : Scope where
  addresses := p.allocation.globals.map fun v => (v.name, v.address)
  constants := p.constants

def scope (p : Pass) : Scope where
  addresses := (p.allocation.globals ++ p.locals).map fun v => (v.name, v.address)
  constants := p.constants

def emit (p : Pass) (code : Code) : Pass := { p with emitter := p.emitter.emit code }

/-- Code whose numbers can be written. -/
def generate (p : Pass) (check : Except NumberFault Unit) (code : Nat → Code × Nat) :
    Except Failure Pass := do
  failWith .number check
  return { p with emitter := p.emitter.generate code }

def perform (p : Pass) (function : String) (s : Statement) : Except Failure Pass :=
  p.generate s.check (s.code function)

def moveTo (p : Pass) (file : Path) (line : Int) : Pass :=
  { p with emitter := p.emitter.moveTo file line }

def freshLabel (p : Pass) (stem : String) : String × Pass :=
  let (label, emitter) := p.emitter.freshLabel stem
  (label, { p with emitter })

def setGlobal (p : Pass) (init : Initializer) : Except Failure Pass := do
  let p := p.moveTo init.file init.target.location.line
  let value ← atLine init.target.location init.source
    (readExpression p.globalScope init.expression.toList)
  p.perform "Init" (.assign init.target.address value)

def setGlobals (p : Pass) : Except Failure Pass :=
  p.allocation.initializers.foldlM setGlobal p

/-- A function that only sets the initial values, if there are any and no `Init` is defined. -/
def addInit (p : Pass) : Except Failure Pass :=
  match p.allocation.initializers with
  | [] => .ok p
  | first :: _ =>
    if p.allocation.declared.contains "Init" then .ok p
    else do
      let p := (p.moveTo first.file first.target.location.line).emit [.label "Init"]
      let p := { p with functions := p.functions ++ [("Init", first.target.location)] }
      let p ← p.setGlobals
      return p.emit [leaveCode "Init", .empty]

def openFunction (p : Pass) (name : String) (location : Location) : Except Failure Pass := do
  if let some first := p.functions.lookup name then fail (.duplicate .function name first)
  let origin := p.emitter.origin
  let p := { p with functions := p.functions ++ [(name, location)] }.emit [.label name]
  let p ← if name = "Init" then p.setGlobals else pure p
  return {
    p.moveTo origin.file origin.line with
    function := some name
    locals := []
    pendingEnd := none }

def topLine (p : Pass) (line : SourceLine) (location : Location) : Except Failure Pass := do
  if (← declaration? line.text).isSome then return p
  if ← isExternal line.text then return p
  if (← prototype? line.text).isSome then return p
  match ← functionStart? line.text with
  | none => fail .expectedDeclaration
  | some name => p.openFunction name location

def declareLocal (p : Pass) (d : Declaration) (location : Location) : Except Failure Pass := do
  if let some first := (p.allocation.globals ++ p.locals).find? (·.name = d.name) then
    fail (.duplicate .localVariable d.name first.location)
  let (v, allocation) ← p.allocation.place d.name location
  let scope := p.scope.withVariable v.name v.address
  let p := { p with allocation, locals := p.locals ++ [v] }
  match d.initial with
  | none => return p
  | some text =>
    let value ← readExpression scope text.toList
    p.perform "" (.assign v.address value)

def statement (p : Pass) (function : String) (text : List Char) : Except Failure Pass := do
  let s ← readStatement p.scope text
  p.perform function s

def condition (p : Pass) (text otherwise : String) : Except Failure Pass := do
  let c ← readCondition p.scope text.toList
  p.generate c.check fun n => c.code n otherwise

def openBlock (p : Pass) (b : Block) : Pass := { p with blocks := b :: p.blocks }

def openIf (p : Pass) (text : String) : Except Failure Pass := do
  let (endLabel, p) := p.freshLabel "CIFEND"
  let (elseLabel, p) := p.freshLabel "CIFELSE"
  let p ← p.condition text elseLabel
  return p.openBlock (.thenPart elseLabel endLabel)

def openWhile (p : Pass) (text : String) : Except Failure Pass := do
  let (startLabel, p) := p.freshLabel "CWHILES"
  let (endLabel, p) := p.freshLabel "CWHILEE"
  let p ← (p.emit [.label startLabel]).condition text endLabel
  return p.openBlock (.whileLoop startLabel endLabel)

def openFor (p : Pass) (function : String) (header : LoopHeader) : Except Failure Pass := do
  let p ← match header.initial with
    | some text => p.statement function (text.toList ++ [';'])
    | none => pure p
  let (startLabel, p) := p.freshLabel "CFORS"
  let (endLabel, p) := p.freshLabel "CFORE"
  let p := p.emit [.label startLabel]
  let p ← match header.condition with
    | some text => p.condition text endLabel
    | none => pure p
  return p.openBlock (.forLoop startLabel endLabel header.step)

/-- A closing brace ends the innermost block, or else the function. -/
def close (p : Pass) (function : String) : Except Failure Pass := do
  match p.blocks with
  -- No end label is due here: `innerLine` has written the pending one before it looks at the brace.
  | [] => return { p.emit [leaveCode function, .empty] with function := none, locals := [] }
  | b :: blocks =>
    let p := { p with blocks }
    match b with
    | .thenPart elseLabel endLabel =>
      let p := p.emit [toLabel .jmp endLabel, .label elseLabel]
      return { p with pendingEnd := some endLabel }
    | .elsePart endLabel => return p.emit [.label endLabel]
    | .whileLoop startLabel endLabel =>
      return p.emit [toLabel .jmp startLabel, .label endLabel]
    | .forLoop startLabel endLabel step =>
      let p ← match step with
        | some text => p.statement function (text.toList ++ [';'])
        | none => pure p
      return p.emit [toLabel .jmp startLabel, .label endLabel]

def bodyLine (p : Pass) (function : String) (text : List Char) (location : Location) :
    Except Failure Pass := do
  if let some d ← declaration? text then return ← p.declareLocal d location
  if let some condition ← conditionStart? "if" text then return ← p.openIf condition
  if let some condition ← conditionStart? "while" text then return ← p.openWhile condition
  if let some header ← loopStart? text then return ← p.openFor function header
  if text = ['\x7d'] then p.close function else p.statement function text

/-- An `else` right after its `if` opens the other part; any other line ends the `if`. -/
def innerLine (p : Pass) (function : String) (text : List Char) (location : Location) :
    Except Failure Pass :=
  match p.pendingEnd with
  | none => p.bodyLine function text location
  | some endLabel =>
    let p := { p with pendingEnd := none }
    if isElse text then .ok (p.openBlock (.elsePart endLabel))
    else (p.emit [.label endLabel]).bodyLine function text location

def line (p : Pass) (file : SourceFile) (path : Path) (line : SourceLine) : Except Failure Pass :=
  let location := file.location line
  let p := p.moveTo path line.number
  atLine location line.source
    (match p.function with
    | none => p.topLine line location
    | some function => p.innerLine function line.text location)

/-- Nothing may be open where a file ends. -/
def openAtEnd? (p : Pass) : Option Fault :=
  if p.function.isSome then some .unterminatedFunction
  else if p.pendingEnd.isSome then some .danglingElse
  else if !p.blocks.isEmpty then some .unterminatedBlock
  else none

def file (current : List String) (p : Pass) (f : SourceFile) : Except Failure Pass := do
  let path ← canonical current f.path
  let p ← (sourceLines f.text).foldlM (fun p l => p.line f path l) p
  match p.openAtEnd? with
  | some fault => .error (.c { fault, location := some { file := f.name, line := 0 } })
  | none => return p

end Pass

/-- The assembly of some files, with the addresses of all variables and the functions in the
order of their definition. -/
structure Compiled where
  lines : List (CodeLine × Origin)
  addresses : NameTable Int
  functions : List String
deriving DecidableEq, Repr

def Compiled.assembly (c : Compiled) : Traced := codeText c.lines

structure Options where
  constants : NameTable Number := []
  zeroPageBase : Int := zeroPageBase
deriving DecidableEq, Repr

def compile (current : List String) (options : Options) (files : List SourceFile) :
    Except Failure Compiled := do
  let allocation ← files.foldlM (Allocation.addFile current) { next := options.zeroPageBase }
  let p ← Pass.addInit { constants := options.constants, allocation }
  let p ← files.foldlM (Pass.file current) p
  return ⟨p.emitter.lines, p.allocation.addresses, p.functions.map Prod.fst⟩

end Toolchain6502.C
