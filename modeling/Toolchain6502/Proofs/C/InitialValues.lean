import Toolchain6502.Proofs.C.CompiledCode

namespace Toolchain6502.C

open Files Source

/-- The statement that sets a global to its initial value. -/
def Initializer.read (scope : Scope) (i : Initializer) : Except Failure Statement := do
  return .assign i.target.address (← readExpression scope i.expression.toList)

def Flow.ofStatements (statements : List Statement) : Flow :=
  statements.foldl (fun flow s => .seq flow (.act s)) .skip

/-- Initial values go before what an `Init` does itself. -/
def Function.begun (values : Flow) (f : Function) : Function :=
  if f.name = "Init" then { f with body := .seq values f.body } else f

/-- The functions of some files as if no global had an initial value. -/
def writtenFunctions (current : List String) (options : Options) (files : List SourceFile) :
    Except Failure (List Function) := do
  let allocation ← files.foldlM (Allocation.addFile current) { next := options.zeroPageBase }
  let r ← files.foldlM Reading.file
    { constants := options.constants, allocation := { allocation with initializers := [] } }
  return r.functions

/-- The code of `g` is that of `first` and then that of `f`. -/
def Flow.Prepends (first f g : Flow) : Prop :=
  ∀ function n, g.code function n = (Flow.seq first f).code function n

namespace Flow

theorem prepends_skip_left (f : Flow) : Prepends .skip f f := by
  intro function n
  simp [code]

theorem prepends_skip_right (f : Flow) : Prepends f .skip f := by
  intro function n
  simp [code]

theorem Prepends.seq {first f g : Flow} (h : Prepends first f g) (next : Flow) :
    Prepends first (.seq f next) (.seq g next) := by
  intro function n
  simp [code, h function n]

def before (values : Flow) (function : Option String) : Flow :=
  if function = some "Init" then values else .skip

/-- The innermost open block and those around it, where something goes before the outermost. -/
inductive Stacked (first : Flow) :
    Flow → List (OpenBlock × Flow) → Flow → List (OpenBlock × Flow) → Prop
  | outermost {f g : Flow} (h : Prepends first f g) : Stacked first f [] g []
  | within {b : OpenBlock} {inner f g : Flow} {outer outer' : List (OpenBlock × Flow)}
      (h : Stacked first f outer g outer') :
      Stacked first inner ((b, f) :: outer) inner ((b, g) :: outer')

theorem Stacked.cases {first f g : Flow} {outer outer' : List (OpenBlock × Flow)}
    (h : Stacked first f outer g outer') :
    (outer = [] ∧ outer' = [] ∧ Prepends first f g) ∨
      ∃ b before before' rest rest', outer = (b, before) :: rest ∧
        outer' = (b, before') :: rest' ∧ f = g ∧ Stacked first before rest before' rest' := by
  cases h with
  | outermost h => exact .inl ⟨rfl, rfl, h⟩
  | within h => exact .inr ⟨_, _, _, _, _, rfl, rfl, rfl, h⟩

theorem Stacked.add {first f g : Flow} {outer outer' : List (OpenBlock × Flow)}
    (h : Stacked first f outer g outer') (next : Flow) :
    Stacked first (.seq f next) outer (.seq g next) outer' := by
  cases h with
  | outermost h => exact .outermost (h.seq next)
  | within h => exact .within h

end Flow

theorem Function.begun_code {values f g : Flow} {function : String}
    (h : Flow.Prepends (.before values (some function)) f g) (n : Nat) :
    Function.code n ⟨function, g⟩ = Function.code n (Function.begun values ⟨function, f⟩) := by
  by_cases hinit : function = "Init"
  · simp [Function.code, Function.begun, hinit, h _ n, Flow.before]
  · simp [Function.code, Function.begun, hinit, h _ n, Flow.before, Flow.code]

namespace Reading

def initialStatements (r : Reading) : Except Failure (List Statement) :=
  r.allocation.initializers.mapM (Initializer.read r.globalScope)

def initialFlow (r : Reading) : Flow := .ofStatements (r.initialStatements.toOption.getD [])

theorem setGlobals_eq_ok {r r' : Reading} (h : r.setGlobals = .ok r') :
    ∃ statements, r.initialStatements = .ok statements ∧
      r' = { r with inner := statements.foldl (fun flow s => .seq flow (.act s)) r.inner } := by
  unfold setGlobals at h
  unfold initialStatements
  generalize r.allocation.initializers = is at h ⊢
  induction is generalizing r with
  | nil =>
    obtain rfl := Except.ok.inj h
    exact ⟨[], rfl, rfl⟩
  | cons i rest ih =>
    rw [List.foldlM_cons] at h
    obtain ⟨r₁, hr₁, h⟩ := bind_eq_ok.mp h
    obtain ⟨value, hvalue, hr₁⟩ := bind_eq_ok.mp hr₁
    obtain rfl := Except.ok.inj hr₁
    obtain ⟨statements, hstatements, rfl⟩ := ih h
    refine ⟨.assign i.target.address value :: statements, ?_, rfl⟩
    have hrest : rest.mapM (Initializer.read r.globalScope) = .ok statements := hstatements
    simp [List.mapM_cons, Initializer.read, hvalue, hrest]

end Reading

section

variable {lead : List Function} {start : Reading}

/-- The same source read with the initial values, and without them. The functions of `lead` stand
before those that are read. -/
structure Began (lead : List Function) (start r w : Reading) : Prop where
  constants : w.constants = r.constants
  allocation : w.allocation = { r.allocation with initializers := [] }
  function : w.function = r.function
  locals : w.locals = r.locals
  pendingIf : w.pendingIf = r.pendingIf
  progress : Progress.ofFunctions r.functions =
    .ofFunctions ((lead ++ w.functions).map (Function.begun start.initialFlow))
  names : r.functions.map Function.name = (lead ++ w.functions).map Function.name
  stacked : Flow.Stacked (.before start.initialFlow r.function)
    w.inner w.outer r.inner r.outer
  outside : r.function = none → r.inner = .skip ∧ r.outer = [] ∧ w.inner = .skip
  /-- The initial values are the same wherever they are read. -/
  values : r.initialStatements = start.initialStatements
  known : "Init" ∈ r.functions.map Function.name ∨ r.function = some "Init" →
    ∃ statements, start.initialStatements = .ok statements

namespace Began

variable {r r' w : Reading} {function : String}

theorem scope (h : Began lead start r w) : w.scope = r.scope := by
  simp [Reading.scope, h.constants, h.allocation, h.locals]

theorem add (h : Began lead start r w) (hinside : r.function = some function) (flow : Flow) :
    Began lead start (r.add flow) (w.add flow) :=
  { h with
    stacked := h.stacked.add flow
    outside := fun hnone => by simp [Reading.add, hinside] at hnone }

theorem openBlock (h : Began lead start r w) (hinside : r.function = some function)
    (b : OpenBlock) : Began lead start (r.openBlock b) (w.openBlock b) :=
  { h with
    stacked := .within h.stacked
    outside := fun hnone => by simp [Reading.openBlock, hinside] at hnone }

theorem statement (h : Began lead start r w) (hinside : r.function = some function)
    {text : List Char} (hr : r.statement text = .ok r') :
    ∃ w', w.statement text = .ok w' ∧ Began lead start r' w' ∧
      r'.function = some function := by
  obtain ⟨s, hs, hr⟩ := bind_eq_ok.mp hr
  obtain rfl := Except.ok.inj hr
  rw [← h.scope] at hs
  exact ⟨_, bind_eq_ok.mpr ⟨s, hs, rfl⟩, h.add hinside _, hinside⟩

theorem part (h : Began lead start r w) (hinside : r.function = some function)
    {text : Option String} (hr : r.part text = .ok r') :
    ∃ w', w.part text = .ok w' ∧ Began lead start r' w' ∧ r'.function = some function := by
  cases text with
  | none =>
    obtain rfl := Except.ok.inj hr
    exact ⟨w, rfl, h, hinside⟩
  | some text => exact h.statement hinside hr

theorem declareLocal (h : Began lead start r w) (hinside : r.function = some function)
    {d : Declaration} {location : Location} (hr : r.declareLocal d location = .ok r') :
    ∃ w', w.declareLocal d location = .ok w' ∧ Began lead start r' w' := by
  obtain ⟨⟨v, allocation⟩, hplace, hr⟩ := bind_eq_ok.mp hr
  obtain ⟨hroom, rfl, rfl⟩ := place_eq_ok.mp hplace
  have hnext : w.allocation.next = r.allocation.next := by rw [h.allocation]
  have hplace' : w.allocation.place d.name location = .ok (⟨d.name, r.allocation.next, location⟩,
      { w.allocation with
        next := r.allocation.next + 1
        addresses := r.allocation.addresses.put d.name r.allocation.next }) := by
    refine place_eq_ok.mpr ⟨by rw [hnext]; exact hroom, by rw [hnext], ?_⟩
    simp [h.allocation]
  -- A local does not change what the initial values may name.
  have hplaced : Began lead start
      { r with
        allocation := { r.allocation with
          next := r.allocation.next + 1
          addresses := r.allocation.addresses.put d.name r.allocation.next }
        locals := r.locals ++ [⟨d.name, r.allocation.next, location⟩] }
      { w with
        allocation := { w.allocation with
          next := r.allocation.next + 1
          addresses := r.allocation.addresses.put d.name r.allocation.next }
        locals := w.locals ++ [⟨d.name, r.allocation.next, location⟩] } :=
    { h with
      allocation := by simp [h.allocation]
      locals := by simp [h.locals] }
  unfold Reading.declareLocal
  rw [hplace', ok_bind]
  cases hinitial : d.initial with
  | none =>
    simp only [hinitial] at hr
    obtain rfl := Except.ok.inj hr
    exact ⟨_, rfl, hplaced⟩
  | some text =>
    simp only [hinitial] at hr
    obtain ⟨value, hvalue, hr⟩ := bind_eq_ok.mp hr
    obtain rfl := Except.ok.inj hr
    rw [← hplaced.scope] at hvalue
    exact ⟨_, bind_eq_ok.mpr ⟨value, hvalue, rfl⟩, hplaced.add hinside _⟩

theorem openFor (h : Began lead start r w) (hinside : r.function = some function)
    {header : LoopHeader} (hr : r.openFor header = .ok r') :
    ∃ w', w.openFor header = .ok w' ∧ Began lead start r' w' := by
  obtain ⟨q, hq, hr⟩ := bind_eq_ok.mp hr
  obtain ⟨v, hv, h', hinside'⟩ := h.part hinside hq
  unfold Reading.openFor
  rw [hv, ok_bind]
  cases hcondition : header.condition with
  | none =>
    simp only [hcondition] at hr
    obtain rfl := Except.ok.inj hr
    exact ⟨_, rfl, h'.openBlock hinside' _⟩
  | some text =>
    simp only [hcondition] at hr
    obtain ⟨c, hc, hr⟩ := bind_eq_ok.mp hr
    obtain rfl := Except.ok.inj hr
    rw [Reading.condition, ← h'.scope] at hc
    exact ⟨_, bind_eq_ok.mpr ⟨c, hc, rfl⟩, h'.openBlock hinside' _⟩

theorem endFunction (h : Began lead start r w) (hinside : r.function = some function)
    (houter : r.outer = []) (houter' : w.outer = [])
    (hprepends : Flow.Prepends (.before start.initialFlow r.function) w.inner r.inner) :
    Began lead start (r.endFunction function) (w.endFunction function) := by
  rw [hinside] at hprepends
  refine { h with
    function := rfl, locals := rfl, progress := ?_, names := ?_, stacked := ?_, outside := ?_,
    known := ?_ }
  · simp only [Reading.endFunction]
    rw [Progress.ofFunctions_concat, h.progress, ← List.append_assoc,
      @List.map_append _ _ _ (lead ++ w.functions), List.map_singleton, Progress.ofFunctions_concat]
    exact congrArg _ (funext (Function.begun_code hprepends))
  · simp [Reading.endFunction, h.names]
  · simp only [Reading.endFunction, houter, houter']
    exact .outermost (Flow.prepends_skip_left _)
  · exact fun _ => ⟨rfl, houter, rfl⟩
  · intro hknown
    refine h.known ?_
    simp only [Reading.endFunction, List.map_append, List.mem_append, List.map_singleton,
      List.mem_singleton, reduceCtorEq, or_false] at hknown
    exact hknown.imp_right fun hinit => hinside.trans (congrArg some hinit.symm)

theorem around (h : Began lead start r w) (hinside : r.function = some function)
    {before before' : Flow} {outer outer' : List (OpenBlock × Flow)}
    (hstacked : Flow.Stacked (.before start.initialFlow r.function)
      before outer before' outer') :
    Began lead start { r with inner := before', outer := outer' }
      { w with inner := before, outer } :=
  { h with
    stacked := hstacked
    outside := fun hnone => by simp [hinside] at hnone }

theorem close (h : Began lead start r w) (hinside : r.function = some function)
    (hr : r.close function = .ok r') :
    ∃ w', w.close function = .ok w' ∧ Began lead start r' w' := by
  obtain ⟨houter', houter, hprepends⟩ |
    ⟨b, before, before', outer, outer', houter', houter, hinner, hbelow⟩ := h.stacked.cases
  · simp only [Reading.close, houter] at hr
    obtain rfl := Except.ok.inj hr
    exact ⟨_, by simp [Reading.close, houter'], h.endFunction hinside houter houter' hprepends⟩
  cases b with
  | thenPart c =>
    simp only [Reading.close, houter] at hr
    obtain rfl := Except.ok.inj hr
    refine ⟨_, by simp only [Reading.close, houter']; rfl, ?_⟩
    exact { h.around hinside hbelow with pendingIf := by simp [hinner] }
  | elsePart c yes =>
    simp only [Reading.close, houter] at hr
    obtain rfl := Except.ok.inj hr
    refine ⟨_, by simp only [Reading.close, houter', hinner]; rfl, ?_⟩
    exact (h.around hinside hbelow).add hinside _
  | whileLoop c =>
    simp only [Reading.close, houter] at hr
    obtain rfl := Except.ok.inj hr
    refine ⟨_, by simp only [Reading.close, houter', hinner]; rfl, ?_⟩
    exact (h.around hinside hbelow).add hinside _
  | forLoop c step =>
    simp only [Reading.close, houter] at hr
    obtain ⟨q, hq, hr⟩ := bind_eq_ok.mp hr
    obtain rfl := Except.ok.inj hr
    obtain ⟨v, hv, h', hinside'⟩ := h.part hinside hq
    have hsame : q.function = r.function := hinside'.trans hinside.symm
    have hinner' : v.inner = q.inner := by
      obtain ⟨-, hnil, -⟩ | ⟨_, _, _, _, _, -, -, hinner', -⟩ := h'.stacked.cases
      · rw [Reading.part_eq_ok hq] at hnil
        simp [houter] at hnil
      · exact hinner'
    rw [← hsame] at hbelow
    refine ⟨_, by simp only [Reading.close, houter', hv, ok_bind, hinner']; rfl, ?_⟩
    exact (h'.around hinside' hbelow).add hinside' _

theorem bodyLine (h : Began lead start r w) (hinside : r.function = some function)
    {text : List Char} {location : Location} (hr : r.bodyLine function text location = .ok r') :
    ∃ w', w.bodyLine function text location = .ok w' ∧ Began lead start r' w' := by
  unfold Reading.bodyLine at hr ⊢
  obtain ⟨d, hd, hr⟩ := bind_eq_ok.mp hr
  rw [hd, ok_bind]
  cases d with
  | some d => exact h.declareLocal hinside hr
  | none =>
  obtain ⟨branch, hbranch, hr⟩ := bind_eq_ok.mp hr
  simp only [hbranch, ok_bind]
  cases branch with
  | some condition =>
    obtain ⟨c, hc, hr⟩ := bind_eq_ok.mp hr
    obtain rfl := Except.ok.inj hr
    rw [Reading.condition, ← h.scope] at hc
    exact ⟨_, bind_eq_ok.mpr ⟨c, hc, rfl⟩, h.openBlock hinside _⟩
  | none =>
  obtain ⟨loop, hloop, hr⟩ := bind_eq_ok.mp hr
  simp only [hloop, ok_bind]
  cases loop with
  | some condition =>
    obtain ⟨c, hc, hr⟩ := bind_eq_ok.mp hr
    obtain rfl := Except.ok.inj hr
    rw [Reading.condition, ← h.scope] at hc
    exact ⟨_, bind_eq_ok.mpr ⟨c, hc, rfl⟩, h.openBlock hinside _⟩
  | none =>
  obtain ⟨header, hheader, hr⟩ := bind_eq_ok.mp hr
  simp only [hheader, ok_bind]
  cases header with
  | some header => exact h.openFor hinside hr
  | none =>
  by_cases hbrace : text = ['\x7d']
  · simp only [hbrace, if_true] at hr ⊢
    exact h.close hinside hr
  · simp only [hbrace, if_false] at hr ⊢
    obtain ⟨w', hw', h', -⟩ := h.statement hinside hr
    exact ⟨w', hw', h'⟩

theorem innerLine (h : Began lead start r w) (hinside : r.function = some function)
    {text : List Char} {location : Location} (hr : r.innerLine function text location = .ok r') :
    ∃ w', w.innerLine function text location = .ok w' ∧ Began lead start r' w' := by
  unfold Reading.innerLine at hr ⊢
  rw [h.pendingIf]
  cases hpending : r.pendingIf with
  | none =>
    simp only [hpending] at hr
    exact h.bodyLine hinside hr
  | some pending =>
    obtain ⟨c, yes⟩ := pending
    simp only [hpending] at hr
    have hsettled : Began lead start { r with pendingIf := none }
        { w with pendingIf := none } := { h with pendingIf := rfl }
    by_cases helse : isElse text = true
    · simp only [helse, if_true] at hr ⊢
      obtain rfl := Except.ok.inj hr
      exact ⟨_, rfl, hsettled.openBlock hinside _⟩
    · simp only [helse, Bool.false_eq_true, if_false] at hr ⊢
      exact (hsettled.add hinside _).bodyLine hinside hr

/-- An `Init` that is written begins with the initial values. -/
theorem openFunction (h : Began lead start r w) (houtside : r.function = none) {name : String}
    (hr : r.openFunction name = .ok r') :
    ∃ w', w.openFunction name = .ok w' ∧ Began lead start r' w' := by
  obtain ⟨hinner, houter, hinner'⟩ := h.outside houtside
  have houter' : w.outer = [] := by
    obtain ⟨houter', -⟩ | ⟨_, _, _, _, _, -, hcons, -⟩ := h.stacked.cases
    · exact houter'
    · simp [houter] at hcons
  have hnone : w.setGlobals = .ok w := by simp [Reading.setGlobals, h.allocation]
  have hentered : w.openFunction name = .ok { w with function := some name, locals := [] } := by
    simp only [Reading.openFunction, Reading.enterFunction, hnone, ite_self, ok_bind, pure_eq_ok]
  refine ⟨_, hentered, ?_⟩
  obtain ⟨q, hq, hr⟩ := bind_eq_ok.mp hr
  obtain rfl := Except.ok.inj hr
  unfold Reading.enterFunction at hq
  split_ifs at hq with hinit
  · obtain ⟨ss, hss, rfl⟩ := Reading.setGlobals_eq_ok hq
    have hvalues : start.initialStatements = .ok ss := h.values ▸ hss
    refine { h with
      function := rfl, locals := rfl, stacked := ?_, outside := by simp,
      known := fun _ => ⟨ss, hvalues⟩ }
    have hflow : start.initialFlow = .ofStatements ss := by
      simp [Reading.initialFlow, hvalues, Except.toOption]
    rw [hinner, houter, hinner', houter', hinit, hflow]
    exact .outermost (Flow.prepends_skip_right _)
  · obtain rfl := Except.ok.inj hq
    refine { h with
      function := rfl, locals := rfl, stacked := ?_, outside := by simp, known := ?_ }
    · rw [hinner, houter, hinner', houter', Flow.before, if_neg (by simpa using hinit)]
      exact .outermost (Flow.prepends_skip_left _)
    · rintro (hdefined | hopen)
      · exact h.known (.inl hdefined)
      · exact absurd (Option.some.inj hopen) hinit

theorem topLine (h : Began lead start r w) (houtside : r.function = none) {text : List Char}
    (hr : r.topLine text = .ok r') :
    ∃ w', w.topLine text = .ok w' ∧ Began lead start r' w' := by
  have hstays (hr : (.ok r : Except Failure Reading) = .ok r') :
      ∃ w', (.ok w : Except Failure Reading) = .ok w' ∧ Began lead start r' w' := by
    obtain rfl := Except.ok.inj hr
    exact ⟨w, rfl, h⟩
  unfold Reading.topLine at hr ⊢
  obtain ⟨d, hd, hr⟩ := bind_eq_ok.mp hr
  rw [hd, ok_bind]
  cases hvariable : d.isSome with
  | true => simpa [hvariable] using hstays (by simpa [hvariable] using hr)
  | false =>
  simp only [hvariable, Bool.false_eq_true, if_false] at hr ⊢
  obtain ⟨external, hexternal, hr⟩ := bind_eq_ok.mp hr
  rw [hexternal, ok_bind]
  cases external with
  | true => simpa using hstays (by simpa using hr)
  | false =>
  simp only [Bool.false_eq_true, if_false] at hr ⊢
  obtain ⟨prototype, hprototype, hr⟩ := bind_eq_ok.mp hr
  rw [hprototype, ok_bind]
  cases hknown : prototype.isSome with
  | true => simpa [hknown] using hstays (by simpa [hknown] using hr)
  | false =>
  simp only [hknown, Bool.false_eq_true, if_false] at hr ⊢
  obtain ⟨start, hstart, hr⟩ := bind_eq_ok.mp hr
  rw [hstart, ok_bind]
  cases start with
  | none => simp [fail] at hr
  | some name => exact h.openFunction houtside hr

theorem file (h : Began lead start r w) {f : SourceFile} (hr : r.file f = .ok r') :
    ∃ w', w.file f = .ok w' ∧ Began lead start r' w' := by
  refine foldlM_simulates (R := Began lead start) ?_ h hr
  intro r w line r' h hr
  unfold Reading.line at hr ⊢
  rw [h.function]
  cases hfunction : r.function with
  | none =>
    simp only [hfunction] at hr
    exact h.topLine hfunction hr
  | some function =>
    simp only [hfunction] at hr
    exact h.innerLine hfunction hr

end Began

end

/-- The function for the initial values, where none is written that could begin with them. -/
def Allocation.leadingInit (a : Allocation) : List Function :=
  if a.initializers.isEmpty || a.declared.contains "Init" then [] else [⟨"Init", .skip⟩]

theorem Began.start (constants : NameTable Number) (a : Allocation) :
    Began [] { constants, allocation := a } { constants, allocation := a }
      { constants, allocation := { a with initializers := [] } } where
  constants := rfl
  allocation := rfl
  function := rfl
  locals := rfl
  pendingIf := rfl
  progress := rfl
  names := rfl
  stacked := .outermost (Flow.prepends_skip_left _)
  outside _ := ⟨rfl, rfl, rfl⟩
  values := rfl
  known hinit := by simp at hinit

/-- A function that is made for the initial values is a written one that does nothing itself. -/
theorem Began.addInit {constants : NameTable Number} {a : Allocation} {r : Reading}
    (hr : Reading.addInit { constants, allocation := a } = .ok r) :
    Began a.leadingInit { constants, allocation := a } r
      { constants, allocation := { a with initializers := [] } } := by
  unfold Reading.addInit at hr
  unfold Allocation.leadingInit
  split_ifs at hr ⊢ with hlead
  · obtain rfl := Except.ok.inj hr
    exact .start constants a
  · obtain ⟨q, hq, hr⟩ := bind_eq_ok.mp hr
    obtain rfl := Except.ok.inj hr
    obtain ⟨statements, hstatements, rfl⟩ := Reading.setGlobals_eq_ok hq
    have hflow : Reading.initialFlow { constants, allocation := a } = .ofStatements statements := by
      simp [Reading.initialFlow, hstatements, Except.toOption]
    refine { Began.start constants a with
      progress := ?_, names := rfl, stacked := .outermost (Flow.prepends_skip_left _),
      known := fun _ => ⟨statements, hstatements⟩ }
    rw [hflow]
    have hprepends : Flow.Prepends (.before (.ofStatements statements) (some "Init")) .skip
      (.ofStatements statements) := Flow.prepends_skip_right (.ofStatements statements)
    exact congrArg (Progress.add {}) (funext (Function.begun_code hprepends))

end Toolchain6502.C
