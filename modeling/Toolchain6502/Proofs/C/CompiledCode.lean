import Toolchain6502.Proofs.C.Allocation
import Toolchain6502.Proofs.C.Progress

namespace Toolchain6502.C

open Files Source

/-- The compiler and the reader agree on all that is not code, inside a function. -/
structure Beside (current : Option String) (function : String) (p : Pass) (r : Reading) : Prop where
  constants : r.constants = p.constants
  allocation : r.allocation = p.allocation
  locals : r.locals = p.locals
  compiled : p.function = current
  read : r.function = current
  names : p.functions.map Prod.fst = r.functions.map Function.name ++ [function]

/-- The compiler has generated the code of what was read of a function. -/
structure Inside (current : Option String) (function : String) (p : Pass) (r : Reading) : Prop
    extends Beside current function p r where
  progress : p.progress = r.here function
  pendingIf : r.pendingIf = none

/-- The same after the end of an `if` that may still get its `else`. -/
structure Suspended (current : Option String) (function : String) (p : Pass) (r : Reading) : Prop
    extends Beside current function p r where
  progress : ∃ c yes, r.pendingIf = some (c, yes) ∧
    p.progress = (r.here function).suspend function c yes

/-- The compiler has generated the code of the functions that were read. -/
structure Outside (p : Pass) (r : Reading) : Prop where
  constants : r.constants = p.constants
  allocation : r.allocation = p.allocation
  compiled : p.function = none
  read : r.function = none
  names : p.functions.map Prod.fst = r.functions.map Function.name
  progress : p.progress = .ofFunctions r.functions
  locals : r.locals = p.locals
  inner : r.inner = .skip
  outer : r.outer = []
  pendingIf : r.pendingIf = none

section
variable {current : Option String} {function : String} {p p' : Pass} {r : Reading}

theorem Beside.scope (h : Beside current function p r) : r.scope = p.scope := by
  simp [Reading.scope, Pass.scope, h.constants, h.allocation, h.locals]

theorem Beside.globalScope (h : Beside current function p r) : r.globalScope = p.globalScope := by
  simp [Reading.globalScope, Pass.globalScope, h.constants, h.allocation]

theorem Beside.keeps (h : Beside current function p r) (hp : p.Keeps p') :
    Beside current function p' r where
  constants := h.constants.trans hp.constants.symm
  allocation := h.allocation.trans hp.allocation.symm
  locals := h.locals.trans hp.locals.symm
  compiled := hp.function.trans h.compiled
  read := h.read
  names := by rw [hp.functions, h.names]

theorem Inside.openBlock (h : Inside current function p r) (hp : p.Keeps p') {b : OpenBlock}
    (hprogress : p'.progress = p.progress.enter function b) :
    Inside current function p' (r.openBlock b) := by
  refine { h.toBeside.keeps hp with progress := ?_, pendingIf := h.pendingIf }
  rw [hprogress, h.progress, r.here_openBlock]

theorem Inside.perform (h : Inside current function p r) {name : String} {s : Statement}
    (hp : p.perform name s = .ok p') (hs : s.code name = s.code function) :
    Inside current function p' (r.add (.act s)) := by
  obtain rfl := Pass.generate_eq_ok hp
  refine { h with progress := ?_ }
  rw [Pass.generate_progress, h.progress, hs]
  exact (r.here_add function (.act s)).symm

theorem Inside.statement (h : Inside current function p r) {text : List Char}
    (hp : p.statement function text = .ok p') :
    ∃ r', r.statement text = .ok r' ∧ Inside current function p' r' := by
  obtain ⟨s, hs, hp⟩ := bind_eq_ok.mp hp
  rw [← h.scope] at hs
  exact ⟨_, bind_eq_ok.mpr ⟨s, hs, rfl⟩, h.perform hp rfl⟩

theorem Inside.declareLocal (h : Inside current function p r) {d : Declaration}
    {location : Location} (hp : p.declareLocal d location = .ok p') :
    ∃ r', r.declareLocal d location = .ok r' ∧ Inside current function p' r' := by
  obtain ⟨-, v, allocation, hv, hp⟩ := Pass.declareLocal_eq_ok hp
  rw [← h.allocation] at hv
  have hplaced : Inside current function { p with allocation, locals := p.locals ++ [v] }
      { r with allocation, locals := r.locals ++ [v] } := by
    refine { h with allocation := rfl, locals := ?_ }
    simp [h.locals]
  rcases hp with ⟨hinitial, rfl⟩ | ⟨text, value, hinitial, hvalue, hp⟩
  · refine ⟨_, ?_, hplaced⟩
    simp [Reading.declareLocal, hv, hinitial]
  · -- the initial value may name the variable itself
    have hscope : { r with allocation, locals := r.locals ++ [v] }.scope =
        p.scope.withVariable v.name v.address := by
      have hglobals : allocation.globals = p.allocation.globals := by
        rw [(place_eq_ok.mp hv).2.2, h.allocation]
      simp [Reading.scope, Pass.scope, Scope.withVariable, hglobals, h.constants, h.locals]
    rw [← hscope] at hvalue
    refine ⟨_, ?_, hplaced.perform hp rfl⟩
    simp [Reading.declareLocal, hv, hinitial, hvalue]

theorem Inside.part (h : Inside current function p r) {text : Option String}
    (hp : p.part function text = .ok p') :
    ∃ r', r.part text = .ok r' ∧ Inside current function p' r' := by
  cases text with
  | none =>
    obtain rfl := Except.ok.inj hp
    exact ⟨r, rfl, h⟩
  | some text => exact h.statement hp

theorem Inside.openFor (h : Inside current function p r) {header : LoopHeader}
    (hp : p.openFor function header = .ok p') :
    ∃ r', r.openFor header = .ok r' ∧ Inside current function p' r' := by
  obtain ⟨q, c, hq, hkeeps, hc, hprogress⟩ := Pass.openFor_eq_ok hp
  obtain ⟨r', hr', hinside⟩ := h.part hq
  refine ⟨r'.openBlock (.forLoop c header.step), ?_, hinside.openBlock hkeeps hprogress⟩
  cases hcondition : header.condition with
  | none =>
    obtain rfl : c = none := by simpa [hcondition] using hc
    simp [Reading.openFor, hr', hcondition]
  | some text =>
    obtain ⟨c', rfl, hc'⟩ : ∃ c', c = some c' ∧ readCondition q.scope text.toList = .ok c' := by
      simpa [hcondition] using hc
    rw [← hinside.scope] at hc'
    simp [Reading.openFor, hr', hcondition, Reading.condition, hc']

/-- What a line inside a function leads to. -/
inductive Follows (function : String) (p : Pass) (r : Reading) : Prop
  | inside (h : Inside (some function) function p r)
  | suspended (h : Suspended (some function) function p r)
  | outside (h : Outside p r)

/-- The code up to the end of an open block starts with the code before the block. -/
theorem Reading.here_of_outer {b : OpenBlock} {before : Flow} {outer : List (OpenBlock × Flow)}
    (h : r.outer = (b, before) :: outer) :
    r.here function =
      (({ r with inner := before, outer }.here function).enter function b).add
        (r.inner.code function) := by
  simp [Reading.here, h, Progress.ofOpen]

theorem Inside.endFunction (h : Inside current function p r) (houter : r.outer = [])
    (hcompiled : p'.function = none) (hlocals : p'.locals = [])
    (hconstants : p'.constants = p.constants)
    (hallocation : p'.allocation = p.allocation) (hfunctions : p'.functions = p.functions)
    (hprogress : p'.progress = p.progress.write [leaveCode function, .empty]) :
    Outside p' (r.endFunction function) where
  constants := h.constants.trans hconstants.symm
  allocation := h.allocation.trans hallocation.symm
  compiled := hcompiled
  read := rfl
  names := by simp [hfunctions, h.names, Reading.endFunction]
  progress := by
    rw [hprogress, h.progress]
    simp [Reading.endFunction, Progress.ofFunctions_concat, Reading.here, houter, Progress.ofOpen,
      Progress.add, Progress.write, Function.code]
  locals := hlocals.symm
  inner := rfl
  outer := houter
  pendingIf := h.pendingIf

/-- The step of a `for` loop is compiled and read where the loop is closed. -/
theorem Inside.closeFor (h : Inside current function p r) {c : Option Condition}
    {step : Option String} {before : Flow} {outer : List (OpenBlock × Flow)}
    (houter : r.outer = (.forLoop c step, before) :: outer) (hp : p.close function = .ok p') :
    ∃ r', r.close function = .ok r' ∧ Inside current function p' r' := by
  let around : Reading := { r with inner := before, outer }
  have hblocks : p.blocks = .forLoop (generatedLabel "CFORS" (around.here function).labels)
      (generatedLabel "CFORE" ((around.here function).labels + 1)) step ::
      (around.here function).blocks := by
    have hprogress := congrArg Progress.blocks h.progress
    rwa [r.here_of_outer houter] at hprogress
  obtain ⟨q, hq, rfl⟩ : ∃ q, { p with blocks := (around.here function).blocks }.part function
      step = .ok q ∧ p' = q.emit
        [toLabel .jmp (generatedLabel "CFORS" (around.here function).labels),
          .label (generatedLabel "CFORE" ((around.here function).labels + 1))] := by
    simp only [Pass.close, hblocks] at hp
    cases step with
    | none => exact ⟨_, rfl, (Except.ok.inj hp).symm⟩
    | some text =>
      obtain ⟨q, hq, hp⟩ := bind_eq_ok.mp hp
      exact ⟨q, hq, (Except.ok.inj hp).symm⟩
  -- the block is taken off before the step is compiled, which does not look at it
  obtain ⟨hq, hkept⟩ := Pass.part_of_blocks hq
  obtain ⟨r₁, hr₁, h₁⟩ := h.part hq
  have hr : r₁ = { r with inner := r₁.inner } := Reading.part_eq_ok hr₁
  have haround : { r₁ with inner := before, outer } = around := by rw [hr]
  have hhere : r₁.here function = _ := r₁.here_of_outer (by rw [hr, houter])
  rw [haround] at hhere
  have hbeside := h₁.toBeside
  rw [hr] at hbeside
  refine ⟨around.add (.loop .forLoop c r₁.inner), ?_,
    { hbeside with progress := ?_, pendingIf := h.pendingIf }⟩
  · simp [Reading.close, houter, hr₁, haround]
  · rw [Reading.here_add, Progress.add_forLoop _ _ _ step, ← hhere, ← h₁.progress, ← hkept]
    exact { q with blocks := p.blocks }.emit_progress_of_blocks q.blocks q.pendingEnd _

theorem Inside.close (h : Inside (some function) function p r) (hp : p.close function = .ok p') :
    ∃ r', r.close function = .ok r' ∧ Follows function p' r' := by
  have hblocks : p.blocks = (r.here function).blocks := congrArg Progress.blocks h.progress
  cases houter : r.outer with
  | nil =>
    have hnone : p.blocks = [] := by
      rw [hblocks, Reading.here, houter]
      exact (Progress.ofFunctions_open r.functions).1
    simp only [Pass.close, hnone] at hp
    obtain rfl := Except.ok.inj hp
    refine ⟨r.endFunction function, by simp [Reading.close, houter], .outside ?_⟩
    exact h.endFunction houter rfl rfl rfl rfl rfl (p.emit_progress _)
  | cons entry outer =>
    obtain ⟨b, before⟩ := entry
    have hhere : r.here function = _ := r.here_of_outer houter
    let around : Reading := { r with inner := before, outer }
    rw [hhere] at hblocks
    cases b with
    | thenPart c =>
      have hblocks : p.blocks = .thenPart (generatedLabel "CIFELSE" ((around.here function).labels + 1))
          (generatedLabel "CIFEND" (around.here function).labels) ::
          (around.here function).blocks := hblocks
      simp only [Pass.close, hblocks] at hp
      obtain rfl := Except.ok.inj hp
      -- the end label waits for the next line, which may be an `else`
      refine ⟨{ around with pendingIf := some (c, r.inner) }, by simp [Reading.close, houter, around],
        .suspended { h with progress := ⟨c, r.inner, rfl, ?_⟩ }⟩
      have hprogress := Progress.suspend_eq (around.here function) function c r.inner
      rw [← hhere, ← h.progress] at hprogress
      refine Eq.trans ?_ hprogress.symm
      exact p.emit_progress_of_blocks _ _ _
    | elsePart c yes =>
      have hblocks : p.blocks = .elsePart (generatedLabel "CIFEND" (around.here function).labels) ::
          (around.here function).blocks := hblocks
      simp only [Pass.close, hblocks] at hp
      obtain rfl := Except.ok.inj hp
      refine ⟨around.add (.branch c yes r.inner), by simp [Reading.close, houter, around],
        .inside { h with progress := ?_ }⟩
      rw [Reading.here_add, Progress.add_branch, ← hhere, ← h.progress]
      exact p.emit_progress_of_blocks _ p.pendingEnd _
    | whileLoop c =>
      have hblocks : p.blocks = .whileLoop (generatedLabel "CWHILES" (around.here function).labels)
          (generatedLabel "CWHILEE" ((around.here function).labels + 1)) ::
          (around.here function).blocks := hblocks
      simp only [Pass.close, hblocks] at hp
      obtain rfl := Except.ok.inj hp
      refine ⟨around.add (.loop .whileLoop (some c) r.inner),
        by simp [Reading.close, houter, around],
        .inside { h with progress := ?_ }⟩
      rw [Reading.here_add, Progress.add_whileLoop, ← hhere, ← h.progress]
      exact p.emit_progress_of_blocks _ p.pendingEnd _
    | forLoop c step =>
      obtain ⟨r', hr', h'⟩ := h.closeFor houter hp
      exact ⟨r', hr', .inside h'⟩

theorem Inside.bodyLine (h : Inside (some function) function p r) {text : List Char}
    {location : Location} (hp : p.bodyLine function text location = .ok p') :
    ∃ r', r.bodyLine function text location = .ok r' ∧ Follows function p' r' := by
  unfold Pass.bodyLine at hp
  unfold Reading.bodyLine
  obtain ⟨d, hd, hp⟩ := bind_eq_ok.mp hp
  rw [hd, ok_bind]
  cases d with
  | some d =>
    obtain ⟨r', hr', h'⟩ := h.declareLocal hp
    exact ⟨r', hr', .inside h'⟩
  | none =>
  obtain ⟨branch, hbranch, hp⟩ := bind_eq_ok.mp hp
  simp only [hbranch, ok_bind]
  cases branch with
  | some condition =>
    obtain ⟨c, hc, hkeeps, hprogress⟩ := Pass.openIf_eq_ok hp
    rw [← h.scope] at hc
    exact ⟨_, by simp [Reading.condition, hc], .inside (h.openBlock hkeeps (hprogress function))⟩
  | none =>
  obtain ⟨loop, hloop, hp⟩ := bind_eq_ok.mp hp
  simp only [hloop, ok_bind]
  cases loop with
  | some condition =>
    obtain ⟨c, hc, hkeeps, hprogress⟩ := Pass.openWhile_eq_ok hp
    rw [← h.scope] at hc
    exact ⟨_, by simp [Reading.condition, hc], .inside (h.openBlock hkeeps (hprogress function))⟩
  | none =>
  obtain ⟨header, hheader, hp⟩ := bind_eq_ok.mp hp
  simp only [hheader, ok_bind]
  cases header with
  | some header =>
    obtain ⟨r', hr', h'⟩ := h.openFor hp
    exact ⟨r', hr', .inside h'⟩
  | none =>
  by_cases hbrace : text = ['\x7d']
  · simp only [hbrace, if_true] at hp ⊢
    exact h.close hp
  · simp only [hbrace, if_false] at hp ⊢
    obtain ⟨r', hr', h'⟩ := h.statement hp
    exact ⟨r', hr', .inside h'⟩

theorem Inside.innerLine (h : Inside (some function) function p r) {text : List Char}
    {location : Location} (hp : p.innerLine function text location = .ok p') :
    ∃ r', r.innerLine function text location = .ok r' ∧ Follows function p' r' := by
  have hpending : p.pendingEnd = none := by
    rw [← r.here_pendingEnd function]
    exact congrArg Progress.pendingEnd h.progress
  simp only [Pass.innerLine, hpending] at hp
  obtain ⟨r', hr', h'⟩ := h.bodyLine hp
  exact ⟨r', by simpa only [Reading.innerLine, h.pendingIf] using hr', h'⟩

theorem Suspended.innerLine (h : Suspended (some function) function p r) {text : List Char}
    {location : Location} (hp : p.innerLine function text location = .ok p') :
    ∃ r', r.innerLine function text location = .ok r' ∧ Follows function p' r' := by
  obtain ⟨c, yes, hif, hprogress⟩ := h.progress
  let settled : Reading := { r with pendingIf := none }
  have hnone : (settled.here function).pendingEnd = none := settled.here_pendingEnd function
  have hpending : p.pendingEnd = some (generatedLabel "CIFEND" (settled.here function).labels) :=
    congrArg Progress.pendingEnd hprogress
  simp only [Pass.innerLine, hpending] at hp
  simp only [Reading.innerLine, hif]
  by_cases helse : isElse text = true
  · simp only [helse, if_true] at hp ⊢
    obtain rfl := Except.ok.inj hp
    refine ⟨settled.openBlock (.elsePart c yes), rfl,
      .inside { h with progress := ?_, pendingIf := rfl }⟩
    rw [Reading.here_openBlock, Progress.enter_elsePart, hnone]
    exact congrArg (fun q : Progress =>
      { q with blocks := .elsePart (generatedLabel "CIFEND" (settled.here function).labels) :: q.blocks
               pendingEnd := none }) hprogress
  · simp only [helse, Bool.false_eq_true, if_false] at hp ⊢
    -- no `else` follows: the end label is written before the line
    have hsettled : Inside (some function) function
        ({ p with pendingEnd := none }.emit
          [.label (generatedLabel "CIFEND" (settled.here function).labels)])
        (settled.add (.branch c yes .skip)) := by
      refine { h with progress := ?_, pendingIf := rfl }
      rw [Pass.emit_progress, Reading.here_add, Progress.add_branch_skip, hnone]
      exact congrArg (fun q : Progress => { q.write
        [.label (generatedLabel "CIFEND" (settled.here function).labels)] with
          pendingEnd := none }) hprogress
    exact hsettled.bodyLine hp

theorem Inside.setGlobal (h : Inside current "Init" p r) {init : Initializer}
    (hp : p.setGlobal init = .ok p') :
    ∃ r', r.setGlobal init = .ok r' ∧ Inside current "Init" p' r' := by
  obtain ⟨value, hvalue, hp⟩ := bind_eq_ok.mp hp
  have hmoved : Inside current "Init" (p.moveTo init.file init.target.location.line) r :=
    ⟨h.toBeside.keeps ⟨rfl, rfl, rfl, rfl, rfl⟩, h.progress, h.pendingIf⟩
  have hvalue := atLine_eq_ok.mp hvalue
  rw [← hmoved.globalScope] at hvalue
  exact ⟨_, bind_eq_ok.mpr ⟨value, hvalue, rfl⟩, hmoved.perform hp rfl⟩

theorem Inside.setGlobals (h : Inside current "Init" p r) (hp : p.setGlobals = .ok p') :
    ∃ r', r.setGlobals = .ok r' ∧ Inside current "Init" p' r' ∧ r' = { r with inner := r'.inner } := by
  have hsame : r.allocation.initializers = p.allocation.initializers := by rw [h.allocation]
  unfold Pass.setGlobals at hp
  unfold Reading.setGlobals
  rw [hsame]
  refine foldlM_simulates (f := Pass.setGlobal)
    (R := fun p r' => Inside current "Init" p r' ∧ r' = { r with inner := r'.inner }) ?_ ⟨h, rfl⟩ hp
  rintro p r₁ init p' ⟨h, hr₁⟩ hp
  obtain ⟨r₂, hr₂, h₂⟩ := h.setGlobal hp
  refine ⟨r₂, hr₂, h₂, ?_⟩
  obtain ⟨value, -, hr₂⟩ := bind_eq_ok.mp hr₂
  obtain rfl := Except.ok.inj hr₂
  rw [hr₁]
  rfl

theorem Outside.startFunction (h : Outside p r) (name : String) (location : Location) :
    Inside none name ({ p with functions := p.functions ++ [(name, location)] }.emit [.label name])
      r := by
  refine ⟨⟨h.constants, h.allocation, h.locals, h.compiled, h.read, ?_⟩, ?_, h.pendingIf⟩
  · simp [Pass.emit, h.names]
  · rw [Pass.emit_progress, Reading.here, h.outer, h.inner, Progress.add_skip]
    exact congrArg (·.write [.label name]) h.progress

theorem Outside.enterFunction (h : Outside p r) {name : String} {location : Location}
    (hp : p.openFunction name location = .ok p') :
    ∃ q r', r.enterFunction name = .ok r' ∧ Inside none name q r' ∧
      p' = { q.moveTo p.emitter.origin.file p.emitter.origin.line with
        function := some name, locals := [], pendingEnd := none } := by
  have hstart := h.startFunction name location
  cases hfirst : p.functions.lookup name with
  | some first => simp [Pass.openFunction, hfirst, fail] at hp
  | none =>
  simp only [Pass.openFunction, hfirst] at hp
  by_cases hinit : name = "Init"
  · subst hinit
    simp only [if_true] at hp
    obtain ⟨q, hq, hp⟩ := bind_eq_ok.mp hp
    obtain ⟨r', hr', h', -⟩ := hstart.setGlobals hq
    exact ⟨q, r', by simpa [Reading.enterFunction] using hr', h', (Except.ok.inj hp).symm⟩
  · simp only [hinit, if_false] at hp
    exact ⟨_, r, by simp [Reading.enterFunction, hinit], hstart, (Except.ok.inj hp).symm⟩

theorem Outside.openFunction (h : Outside p r) {name : String} {location : Location}
    (hp : p.openFunction name location = .ok p') :
    ∃ r', r.openFunction name = .ok r' ∧ Inside (some name) name p' r' := by
  obtain ⟨q, r', hr', hq, rfl⟩ := h.enterFunction hp
  refine ⟨{ r' with function := some name, locals := [] }, bind_eq_ok.mpr ⟨r', hr', rfl⟩,
    ⟨hq.constants, hq.allocation, rfl, rfl, rfl, hq.names⟩, ?_, hq.pendingIf⟩
  have hprogress := congrArg (fun p : Progress => { p with pendingEnd := none }) hq.progress
  refine hprogress.trans ?_
  rw [← r'.here_pendingEnd name]
  rfl

theorem Outside.topLine (h : Outside p r) {line : SourceLine} {location : Location}
    (hp : p.topLine line location = .ok p') :
    ∃ r', r.topLine line.text = .ok r' ∧ ∃ function, Follows function p' r' := by
  -- declarations and prototypes outside a function give no code
  have hstays (hp : (.ok p : Except Failure Pass) = .ok p') :
      ∃ r', (.ok r : Except Failure Reading) = .ok r' ∧ ∃ function, Follows function p' r' := by
    obtain rfl := Except.ok.inj hp
    exact ⟨r, rfl, "", .outside h⟩
  unfold Pass.topLine at hp
  unfold Reading.topLine
  obtain ⟨d, hd, hp⟩ := bind_eq_ok.mp hp
  rw [hd, ok_bind]
  cases hvariable : d.isSome with
  | true => simpa [hvariable] using hstays (by simpa [hvariable] using hp)
  | false =>
  simp only [hvariable, Bool.false_eq_true, if_false] at hp ⊢
  obtain ⟨external, hexternal, hp⟩ := bind_eq_ok.mp hp
  rw [hexternal, ok_bind]
  cases external with
  | true => simpa using hstays (by simpa using hp)
  | false =>
  simp only [Bool.false_eq_true, if_false] at hp ⊢
  obtain ⟨prototype, hprototype, hp⟩ := bind_eq_ok.mp hp
  rw [hprototype, ok_bind]
  cases hknown : prototype.isSome with
  | true => simpa [hknown] using hstays (by simpa [hknown] using hp)
  | false =>
  simp only [hknown, Bool.false_eq_true, if_false] at hp ⊢
  obtain ⟨start, hstart, hp⟩ := bind_eq_ok.mp hp
  rw [hstart, ok_bind]
  cases start with
  | none => simp [fail] at hp
  | some name =>
    obtain ⟨r', hr', h'⟩ := h.openFunction hp
    exact ⟨r', hr', name, .inside h'⟩

theorem Outside.moveTo (h : Outside p r) (path : Path) (line : Int) :
    Outside (p.moveTo path line) r := { h with }

theorem Follows.line (h : Follows function p r) {file : SourceFile} {path : Path}
    {line : SourceLine} (hp : p.line file path line = .ok p') :
    ∃ r', r.line file line = .ok r' ∧ ∃ function, Follows function p' r' := by
  have hp := atLine_eq_ok.mp hp
  have hkeeps : p.Keeps (p.moveTo path line.number) := ⟨rfl, rfl, rfl, rfl, rfl⟩
  cases h with
  | inside h =>
    have hmoved : Inside (some function) function (p.moveTo path line.number) r :=
      ⟨h.toBeside.keeps hkeeps, h.progress, h.pendingIf⟩
    simp only [hmoved.compiled] at hp
    obtain ⟨r', hr', h'⟩ := hmoved.innerLine hp
    exact ⟨r', by simpa only [Reading.line, h.read] using hr', function, h'⟩
  | suspended h =>
    have hmoved : Suspended (some function) function (p.moveTo path line.number) r :=
      ⟨h.toBeside.keeps hkeeps, h.progress⟩
    simp only [hmoved.compiled] at hp
    obtain ⟨r', hr', h'⟩ := hmoved.innerLine hp
    exact ⟨r', by simpa only [Reading.line, h.read] using hr', function, h'⟩
  | outside h =>
    have hmoved := h.moveTo path line.number
    simp only [hmoved.compiled] at hp
    obtain ⟨r', hr', h'⟩ := hmoved.topLine hp
    exact ⟨r', by simpa only [Reading.line, h.read] using hr', h'⟩

theorem Outside.file (h : Outside p r) {current : List String} {f : SourceFile}
    (hp : p.file current f = .ok p') : ∃ r', r.file f = .ok r' ∧ Outside p' r' := by
  obtain ⟨path, -, hp⟩ := bind_eq_ok.mp hp
  obtain ⟨q, hq, hp⟩ := bind_eq_ok.mp hp
  obtain ⟨r', hr', function, h'⟩ := foldlM_simulates
    (R := fun p r => ∃ function, Follows function p r) (f := fun p l => p.line f path l)
    (g := Reading.line f) (by
      rintro p r line p' ⟨function, h⟩ hp
      exact h.line hp) ⟨"", .outside h⟩ hq
  refine ⟨r', hr', ?_⟩
  -- an open function would have been a fault
  cases hopen : q.openAtEnd? with
  | some fault => simp [hopen] at hp
  | none =>
    simp only [hopen] at hp
    obtain rfl := Except.ok.inj hp
    have hfunction : q.function = none := by
      rw [← Option.not_isSome_iff_eq_none]
      intro hsome
      simp [Pass.openAtEnd?, hsome] at hopen
    cases h' with
    | inside h' => simp [h'.compiled] at hfunction
    | suspended h' => simp [h'.compiled] at hfunction
    | outside h' => exact h'

theorem Outside.addInit (h : Outside p r) (hlocals : p.locals = []) (hp : p.addInit = .ok p') :
    ∃ r', r.addInit = .ok r' ∧ Outside p' r' := by
  unfold Pass.addInit at hp
  unfold Reading.addInit
  rw [h.allocation]
  cases hinitializers : p.allocation.initializers with
  | nil =>
    simp only [hinitializers] at hp
    obtain rfl := Except.ok.inj hp
    exact ⟨r, rfl, h⟩
  | cons first rest =>
  simp only [hinitializers] at hp
  by_cases hdeclared : p.allocation.declared.contains "Init" = true
  · rw [if_pos hdeclared] at hp
    obtain rfl := Except.ok.inj hp
    exact ⟨r, by simp only [hdeclared, Bool.or_true, if_true], h⟩
  · rw [if_neg hdeclared] at hp
    obtain ⟨q, hq, hp⟩ := bind_eq_ok.mp hp
    obtain rfl := Except.ok.inj hp
    have hstart := (h.moveTo first.file first.target.location.line).startFunction "Init"
      first.target.location
    obtain ⟨r', hr', h', hkept⟩ := hstart.setGlobals hq
    refine ⟨r'.endFunction "Init", ?_, ?_⟩
    · rw [if_neg (by simpa using hdeclared), hr']
      rfl
    · have houter : r'.outer = [] := by rw [hkept, h.outer]
      have hnone : q.locals = [] := by rw [← h'.locals, hkept, h.locals, hlocals]
      exact h'.endFunction houter h'.compiled hnone rfl rfl rfl (q.emit_progress _)

end

theorem compile_stages {current : List String} {options : Options} {files : List SourceFile}
    {compiled : Compiled} (h : compile current options files = .ok compiled) :
    ∃ allocation p q r r',
      files.foldlM (Allocation.addFile current) { next := options.zeroPageBase } = .ok allocation ∧
      Pass.addInit { constants := options.constants, allocation } = .ok p ∧
      files.foldlM (Pass.file current) p = .ok q ∧
      compiled = ⟨q.emitter.lines, q.allocation.addresses, q.functions.map Prod.fst⟩ ∧
      Reading.addInit { constants := options.constants, allocation } = .ok r ∧
      files.foldlM Reading.file r = .ok r' ∧ Outside p r ∧ Outside q r' := by
  obtain ⟨allocation, hallocation, h⟩ := bind_eq_ok.mp h
  obtain ⟨p, hp, h⟩ := bind_eq_ok.mp h
  obtain ⟨q, hq, h⟩ := bind_eq_ok.mp h
  have hstart : Outside { constants := options.constants, allocation }
      { constants := options.constants, allocation } :=
    ⟨rfl, rfl, rfl, rfl, rfl, rfl, rfl, rfl, rfl, rfl⟩
  obtain ⟨r, hr, hinit⟩ := hstart.addInit rfl hp
  obtain ⟨r', hr', hend⟩ := foldlM_simulates (R := Outside) (f := Pass.file current)
    (g := Reading.file) (fun _ _ _ _ h hp => h.file hp) hinit hq
  exact ⟨allocation, p, q, r, r', hallocation, hp, hq, (Except.ok.inj h).symm, hr, hr', hinit, hend⟩

/-- A source that compiles is read to functions, and the lines are the code of these functions. -/
theorem compile_eq_code {current : List String} {options : Options} {files : List SourceFile}
    {compiled : Compiled} (h : compile current options files = .ok compiled) :
    ∃ functions, readFunctions current options files = .ok functions ∧
      compiled.functions = functions.map Function.name ∧
      compiled.lines.map Prod.fst = (Progress.ofFunctions functions).code := by
  obtain ⟨allocation, p, q, r, r', hallocation, -, -, rfl, hr, hr', -, hend⟩ := compile_stages h
  refine ⟨r'.functions, ?_, hend.names, congrArg Progress.code hend.progress⟩
  simp [readFunctions, hallocation, hr, hr']

end Toolchain6502.C
