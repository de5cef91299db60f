import Mathlib.Data.List.Induction
import Toolchain6502.Proofs.C.Reading
import Toolchain6502.Proofs.Outcome

namespace Toolchain6502.C

open Files Source

def Function.code (n : Nat) (f : Function) : Code × Nat :=
  let (x, n) := f.body.code f.name n
  ([.label f.name] ++ x ++ [leaveCode f.name, .empty], n)

/-- What has been generated: lines, numbers of labels, and the labels of all that is open. -/
structure Progress where
  code : Code := []
  labels : Nat := 0
  blocks : List Block := []
  pendingEnd : Option String := none

namespace Progress

def write (p : Progress) (code : Code) : Progress := { p with code := p.code ++ code }

def add (p : Progress) (code : Nat → Code × Nat) : Progress :=
  { p with code := p.code ++ (code p.labels).1, labels := (code p.labels).2 }

end Progress

def LoopKind.opening (n : Nat) (kind : LoopKind) (c : Option Condition) : Code × Nat :=
  let (test, n') := testCode (n + 2) (kind.endLabel (n + 1)) c
  ([.label (kind.startLabel n)] ++ test, n')

/-- The code before a block, and the labels that closing it takes. -/
def OpenBlock.opening (function : String) (n : Nat) : OpenBlock → (Code × Nat) × Block
  | thenPart c =>
    let endLabel := generatedLabel "CIFEND" n
    let elseLabel := generatedLabel "CIFELSE" (n + 1)
    (c.code (n + 2) elseLabel, .thenPart elseLabel endLabel)
  | elsePart c yes =>
    let endLabel := generatedLabel "CIFEND" n
    let elseLabel := generatedLabel "CIFELSE" (n + 1)
    let (test, n) := c.code (n + 2) elseLabel
    let (x, n) := yes.code function n
    ((test ++ x ++ [toLabel .jmp endLabel, .label elseLabel], n), .elsePart endLabel)
  | whileLoop c =>
    (LoopKind.whileLoop.opening n (some c),
      .whileLoop (generatedLabel "CWHILES" n) (generatedLabel "CWHILEE" (n + 1)))
  | forLoop c step =>
    (LoopKind.forLoop.opening n c,
      .forLoop (generatedLabel "CFORS" n) (generatedLabel "CFORE" (n + 1)) step)

namespace Progress

def enter (function : String) (p : Progress) (b : OpenBlock) : Progress :=
  { p.add fun n => (b.opening function n).1 with
    blocks := (b.opening function p.labels).2 :: p.blocks }

/-- An `if` that is closed is like an `else` that has just been opened, but has no block. -/
def suspend (function : String) (p : Progress) (c : Condition) (yes : Flow) : Progress :=
  { p.add fun n => ((OpenBlock.elsePart c yes).opening function n).1 with
    pendingEnd := some (generatedLabel "CIFEND" p.labels) }

def ofFunctions (fs : List Function) : Progress := fs.foldl (fun p f => p.add f.code) {}

def ofOpen (function : String) (start : Progress) : List (OpenBlock × Flow) → Progress
  | [] => start
  | (b, before) :: outer =>
    ((ofOpen function start outer).add (before.code function)).enter function b

end Progress

/-- The code up to the end of what was read of the innermost block. -/
def Reading.here (r : Reading) (function : String) : Progress :=
  (Progress.ofOpen function ((Progress.ofFunctions r.functions).write [.label function])
    r.outer).add (r.inner.code function)

namespace Progress

theorem ofFunctions_concat (fs : List Function) (f : Function) :
    ofFunctions (fs ++ [f]) = (ofFunctions fs).add f.code := by
  simp [ofFunctions]

theorem ofFunctions_append (fs : List Function) (f : Function) (rest : List Function) :
    ∃ after, (ofFunctions (fs ++ f :: rest)).code =
      (ofFunctions fs).code ++ (f.code (ofFunctions fs).labels).1 ++ after := by
  induction rest using List.reverseRecOn with
  | nil => exact ⟨[], by simp [ofFunctions_concat, add]⟩
  | append_singleton rest g ih =>
    obtain ⟨after, hafter⟩ := ih
    refine ⟨after ++ (g.code (ofFunctions (fs ++ f :: rest)).labels).1, ?_⟩
    rw [← List.cons_append, ← List.append_assoc, ofFunctions_concat, add, hafter]
    simp only [List.append_assoc]

theorem ofFunctions_open (fs : List Function) :
    (ofFunctions fs).blocks = [] ∧ (ofFunctions fs).pendingEnd = none := by
  induction fs using List.reverseRecOn with
  | nil => exact ⟨rfl, rfl⟩
  | append_singleton fs f ih =>
    rw [ofFunctions_concat]
    exact ih

theorem add_seq (p : Progress) (function : String) (first second : Flow) :
    p.add ((Flow.seq first second).code function) =
      (p.add (first.code function)).add (second.code function) := by
  simp [add, Flow.code]

theorem add_skip (p : Progress) (function : String) : p.add (Flow.skip.code function) = p := by
  simp [add, Flow.code]

theorem add_branch (p : Progress) (function : String) (c : Condition) (yes no : Flow) :
    p.add ((Flow.branch c yes no).code function) =
      { ((p.enter function (.elsePart c yes)).add (no.code function)).write
          [.label (generatedLabel "CIFEND" p.labels)] with blocks := p.blocks } := by
  simp [add, write, enter, OpenBlock.opening, Flow.code]

theorem suspend_eq (p : Progress) (function : String) (c : Condition) (yes : Flow) :
    p.suspend function c yes =
      { ((p.enter function (.thenPart c)).add (yes.code function)).write
          [toLabel .jmp (generatedLabel "CIFEND" p.labels),
            .label (generatedLabel "CIFELSE" (p.labels + 1))] with
        blocks := p.blocks
        pendingEnd := some (generatedLabel "CIFEND" p.labels) } := by
  simp [add, write, enter, suspend, OpenBlock.opening]

theorem add_whileLoop (p : Progress) (function : String) (c : Condition) (body : Flow) :
    p.add ((Flow.loop .whileLoop (some c) body).code function) =
      { ((p.enter function (.whileLoop c)).add (body.code function)).write
          [toLabel .jmp (generatedLabel "CWHILES" p.labels),
            .label (generatedLabel "CWHILEE" (p.labels + 1))] with
        blocks := p.blocks } := by
  simp [add, write, enter, OpenBlock.opening, LoopKind.opening, Flow.code, LoopKind.startLabel,
    LoopKind.endLabel]

theorem add_forLoop (p : Progress) (function : String) (c : Option Condition)
    (step : Option String) (body : Flow) :
    p.add ((Flow.loop .forLoop c body).code function) =
      { ((p.enter function (.forLoop c step)).add (body.code function)).write
          [toLabel .jmp (generatedLabel "CFORS" p.labels),
            .label (generatedLabel "CFORE" (p.labels + 1))] with
        blocks := p.blocks } := by
  simp [add, write, enter, OpenBlock.opening, LoopKind.opening, Flow.code, LoopKind.startLabel,
    LoopKind.endLabel]

theorem add_branch_skip (p : Progress) (function : String) (c : Condition) (yes : Flow) :
    p.add ((Flow.branch c yes .skip).code function) =
      { (p.suspend function c yes).write [.label (generatedLabel "CIFEND" p.labels)] with
        pendingEnd := p.pendingEnd } := by
  simp [add, write, suspend, OpenBlock.opening, Flow.code]

theorem enter_elsePart (p : Progress) (function : String) (c : Condition) (yes : Flow) :
    p.enter function (.elsePart c yes) =
      { p.suspend function c yes with
        blocks := .elsePart (generatedLabel "CIFEND" p.labels) :: p.blocks
        pendingEnd := p.pendingEnd } := by
  simp [add, enter, suspend, OpenBlock.opening]

end Progress

namespace Reading

theorem here_pendingEnd (r : Reading) (function : String) :
    (r.here function).pendingEnd = none := by
  have hopen (outer : List (OpenBlock × Flow)) (start : Progress) :
      (Progress.ofOpen function start outer).pendingEnd = start.pendingEnd := by
    induction outer with
    | nil => rfl
    | cons entry outer ih => exact ih
  exact (hopen _ _).trans (Progress.ofFunctions_open r.functions).2

theorem here_add (r : Reading) (function : String) (flow : Flow) :
    (r.add flow).here function = (r.here function).add (flow.code function) :=
  Progress.add_seq _ function r.inner flow

theorem here_openBlock (r : Reading) (function : String) (b : OpenBlock) :
    (r.openBlock b).here function = (r.here function).enter function b :=
  Progress.add_skip _ function

/-- A part of a loop header only adds to the innermost block. -/
theorem part_eq_ok {r r' : Reading} {text : Option String} (h : r.part text = .ok r') :
    r' = { r with inner := r'.inner } := by
  cases text with
  | none =>
    obtain rfl := Except.ok.inj h
    rfl
  | some text =>
    obtain ⟨s, -, h⟩ := bind_eq_ok.mp h
    obtain rfl := Except.ok.inj h
    rfl

end Reading

def Pass.progress (p : Pass) : Progress where
  code := p.emitter.lines.map Prod.fst
  labels := p.emitter.labels
  blocks := p.blocks
  pendingEnd := p.pendingEnd

namespace Pass

theorem emit_progress (p : Pass) (code : Code) :
    (p.emit code).progress = p.progress.write code := by
  simp [emit, progress, Emitter.emit, Progress.write, Function.comp_def]

theorem emit_progress_of_blocks (p : Pass) (blocks : List Block) (pendingEnd : Option String)
    (code : Code) :
    { { p with blocks }.emit code with pendingEnd }.progress =
      { p.progress.write code with blocks, pendingEnd } := by
  simp [emit, progress, Emitter.emit, Progress.write, Function.comp_def]

theorem generate_progress (p : Pass) (code : Nat → Code × Nat) :
    { p with emitter := p.emitter.generate code }.progress = p.progress.add code := by
  simp [progress, Emitter.generate, Emitter.emit, Progress.add, Function.comp_def]

theorem generate_eq_ok {p p' : Pass} {check : Except NumberFault Unit} {code : Nat → Code × Nat}
    (h : p.generate check code = .ok p') :
    p' = { p with emitter := p.emitter.generate code } := by
  obtain ⟨_, -, h⟩ := bind_eq_ok.mp h
  exact (Except.ok.inj h).symm

/-- Only code has been generated, and blocks may have been opened or closed. -/
structure Keeps (p p' : Pass) : Prop where
  constants : p'.constants = p.constants
  allocation : p'.allocation = p.allocation
  locals : p'.locals = p.locals
  function : p'.function = p.function
  functions : p'.functions = p.functions

/-- A local is new, it is placed, and its initial value is set. -/
theorem declareLocal_eq_ok {p p' : Pass} {d : Declaration} {location : Location}
    (h : p.declareLocal d location = .ok p') :
    (p.allocation.globals ++ p.locals).find? (·.name = d.name) = none ∧ ∃ v allocation,
      p.allocation.place d.name location = .ok (v, allocation) ∧
      ((d.initial = none ∧ p' = { p with allocation, locals := p.locals ++ [v] }) ∨
        ∃ text value, d.initial = some text ∧
          readExpression (p.scope.withVariable v.name v.address) text.toList = .ok value ∧
          perform { p with allocation, locals := p.locals ++ [v] } "" (.assign v.address value) =
            .ok p') := by
  unfold declareLocal at h
  cases hfirst : (p.allocation.globals ++ p.locals).find? (·.name = d.name) with
  | some first => simp [hfirst, fail] at h
  | none =>
  simp only [hfirst] at h
  obtain ⟨⟨v, allocation⟩, hplace, h⟩ := bind_eq_ok.mp h
  refine ⟨rfl, v, allocation, hplace, ?_⟩
  cases hinitial : d.initial with
  | none =>
    simp only [hinitial] at h
    exact .inl ⟨rfl, (Except.ok.inj h).symm⟩
  | some text =>
    simp only [hinitial] at h
    obtain ⟨value, hvalue, h⟩ := bind_eq_ok.mp h
    exact .inr ⟨text, value, rfl, hvalue, h⟩

theorem condition_eq_ok {p p' : Pass} {text otherwise : String}
    (h : p.condition text otherwise = .ok p') :
    ∃ c, readCondition p.scope text.toList = .ok c ∧
      p' = { p with emitter := p.emitter.generate fun n => c.code n otherwise } := by
  obtain ⟨c, hc, h⟩ := bind_eq_ok.mp h
  exact ⟨c, hc, generate_eq_ok h⟩

theorem openIf_eq_ok {p p' : Pass} {text : String} (h : p.openIf text = .ok p') :
    ∃ c, readCondition p.scope text.toList = .ok c ∧ Keeps p p' ∧
      ∀ function, p'.progress = p.progress.enter function (.thenPart c) := by
  obtain ⟨q, hq, h⟩ := bind_eq_ok.mp h
  obtain ⟨c, hc, rfl⟩ := condition_eq_ok hq
  obtain rfl := Except.ok.inj h
  refine ⟨c, hc, ⟨rfl, rfl, rfl, rfl, rfl⟩, fun function => ?_⟩
  simp [progress, Emitter.generate, Emitter.emit, openBlock,
    Progress.enter, Progress.add, OpenBlock.opening, Function.comp_def]

theorem openWhile_eq_ok {p p' : Pass} {text : String} (h : p.openWhile text = .ok p') :
    ∃ c, readCondition p.scope text.toList = .ok c ∧ Keeps p p' ∧
      ∀ function, p'.progress = p.progress.enter function (.whileLoop c) := by
  obtain ⟨q, hq, h⟩ := bind_eq_ok.mp h
  obtain ⟨c, hc, rfl⟩ := condition_eq_ok hq
  obtain rfl := Except.ok.inj h
  refine ⟨c, hc, ⟨rfl, rfl, rfl, rfl, rfl⟩, fun function => ?_⟩
  simp [progress, Emitter.generate, Emitter.emit, emit, openBlock,
    Progress.enter, Progress.add, OpenBlock.opening, LoopKind.opening, Function.comp_def, testCode,
    LoopKind.startLabel, LoopKind.endLabel]

def part (p : Pass) (function : String) : Option String → Except Failure Pass
  | some text => p.statement function (text.toList ++ [';'])
  | none => .ok p

theorem part_of_blocks {p q : Pass} {blocks : List Block} {function : String}
    {text : Option String} (h : { p with blocks }.part function text = .ok q) :
    p.part function text = .ok { q with blocks := p.blocks } ∧ q.blocks = blocks := by
  cases text with
  | none =>
    obtain rfl := Except.ok.inj h
    exact ⟨rfl, rfl⟩
  | some text =>
    obtain ⟨s, hs, h⟩ := bind_eq_ok.mp h
    obtain ⟨_, hcheck, h⟩ := bind_eq_ok.mp h
    obtain rfl := Except.ok.inj h
    refine ⟨?_, rfl⟩
    exact bind_eq_ok.mpr ⟨s, hs, bind_eq_ok.mpr ⟨_, hcheck, rfl⟩⟩

/-- The first part of a loop header goes before the rest. -/
theorem openFor_initial {p p' : Pass} {function : String} {header : LoopHeader}
    (h : p.openFor function header = .ok p') :
    ∃ q, p.part function header.initial = .ok q ∧
      q.openFor function { header with initial := none } = .ok p' := by
  cases hinitial : header.initial with
  | none => exact ⟨p, rfl, by simpa [openFor, hinitial] using h⟩
  | some text =>
    simp only [openFor, hinitial] at h
    obtain ⟨q, hq, h⟩ := bind_eq_ok.mp h
    exact ⟨q, hq, h⟩

theorem openFor_eq_ok {p p' : Pass} {function : String} {header : LoopHeader}
    (h : p.openFor function header = .ok p') :
    ∃ q c, p.part function header.initial = .ok q ∧ Keeps q p' ∧
      (match header.condition with
        | none => c = none
        | some text => ∃ c', c = some c' ∧ readCondition q.scope text.toList = .ok c') ∧
      p'.progress = q.progress.enter function (.forLoop c header.step) := by
  obtain ⟨q, hq, h⟩ := openFor_initial h
  refine ⟨q, ?_⟩
  cases hcondition : header.condition with
  | none =>
    simp only [openFor, hcondition] at h
    obtain rfl := Except.ok.inj h
    refine ⟨none, hq, ⟨rfl, rfl, rfl, rfl, rfl⟩, rfl, ?_⟩
    simp [progress, freshLabel, Emitter.freshLabel, Emitter.emit, emit, openBlock, Progress.enter,
      Progress.add, OpenBlock.opening, LoopKind.opening, testCode, LoopKind.startLabel]
  | some text =>
    simp only [openFor, hcondition, pure_eq_ok, ok_bind] at h
    obtain ⟨_, hq', h⟩ := bind_eq_ok.mp h
    obtain ⟨c, hc, rfl⟩ := condition_eq_ok hq'
    obtain rfl := Except.ok.inj h
    refine ⟨some c, hq, ⟨rfl, rfl, rfl, rfl, rfl⟩, ⟨c, rfl, hc⟩, ?_⟩
    simp [progress, freshLabel, Emitter.freshLabel, Emitter.generate, Emitter.emit, emit, openBlock,
      Progress.enter, Progress.add, OpenBlock.opening, LoopKind.opening, Function.comp_def, testCode,
      LoopKind.startLabel, LoopKind.endLabel]

end Pass

end Toolchain6502.C
