import Toolchain6502.Proofs.C.Allocation
import Toolchain6502.Proofs.C.Progress

namespace Toolchain6502.C

open Assembly (isSymbol)

/-- A scope in which some function may be read. -/
structure Options.Admits (options : Options) (scope : Scope) : Prop where
  constants : scope.constants = options.constants
  addresses : ∀ e ∈ scope.addresses, options.Places e.2

/-- A statement is read as such, or sets a variable that is declared with an initial value. -/
inductive Statement.ReadUnder (options : Options) : Statement → Prop
  | text {scope : Scope} {text : List Char} {s : Statement} (hscope : options.Admits scope)
      (h : readStatement scope text = .ok s) : ReadUnder options s
  | initial {scope : Scope} {text : List Char} {address : Int} {value : Expr}
      (hscope : options.Admits scope) (haddress : options.Places address)
      (h : readExpression scope text = .ok value) : ReadUnder options (.assign address value)

def Condition.ReadUnder (options : Options) (c : Condition) : Prop :=
  ∃ scope text, options.Admits scope ∧ readCondition scope text = .ok c

def Flow.ReadUnder (options : Options) : Flow → Prop
  | skip => True
  | act s => s.ReadUnder options
  | seq first second => first.ReadUnder options ∧ second.ReadUnder options
  | branch c yes no => c.ReadUnder options ∧ yes.ReadUnder options ∧ no.ReadUnder options
  | loop _ c body => (∀ c' ∈ c, c'.ReadUnder options) ∧ body.ReadUnder options

structure Function.ReadUnder (options : Options) (f : Function) : Prop where
  name : isSymbol f.name.toList = true
  body : f.body.ReadUnder options

def OpenBlock.ReadUnder (options : Options) : OpenBlock → Prop
  | thenPart c | whileLoop c => c.ReadUnder options
  | elsePart c yes => c.ReadUnder options ∧ yes.ReadUnder options
  | forLoop c _ => ∀ c' ∈ c, c'.ReadUnder options

structure Reading.Under (options : Options) (r : Reading) : Prop where
  constants : r.constants = options.constants
  allocation : r.allocation.Placed options
  locals : ∀ v ∈ r.locals, options.Places v.address
  functions : ∀ f ∈ r.functions, f.ReadUnder options
  function : ∀ name ∈ r.function, isSymbol name.toList = true
  inner : r.inner.ReadUnder options
  outer : ∀ e ∈ r.outer, e.1.ReadUnder options ∧ e.2.ReadUnder options
  pendingIf : ∀ e ∈ r.pendingIf, e.1.ReadUnder options ∧ e.2.ReadUnder options

theorem symbol_of_checkIdentifier {name : List Char} (h : checkIdentifier name = .ok ()) :
    isSymbol name = true := by
  unfold checkIdentifier at h
  split at h
  · simp [fail] at h
  · split at h
    · rename_i hname
      cases name with
      | nil => simp [isIdentifier] at hname
      | cons c cs => exact hname
    · simp [fail] at h

theorem functionStart?_symbol {line : List Char} {name : String}
    (h : functionStart? line = .ok (some name)) : isSymbol name.toList = true := by
  unfold functionStart? at h
  split at h
  · simp at h
  split at h
  · simp [fail] at h
  obtain ⟨_, hname, h⟩ := bind_eq_ok.mp h
  split at h
  · obtain rfl := Option.some.inj (Except.ok.inj h)
    simpa using symbol_of_checkIdentifier hname
  · simp [fail] at h

namespace Reading.Under

variable {options : Options} {r r' : Reading}

theorem globalScope (h : r.Under options) : options.Admits r.globalScope := by
  refine ⟨h.constants, fun e he => ?_⟩
  obtain ⟨v, hv, rfl⟩ := List.mem_map.mp he
  exact h.allocation.globals v hv

theorem scope (h : r.Under options) : options.Admits r.scope := by
  refine ⟨h.constants, fun e he => ?_⟩
  obtain ⟨v, hv, rfl⟩ := List.mem_map.mp he
  rcases List.mem_append.mp hv with hv | hv
  · exact h.allocation.globals v hv
  · exact h.locals v hv

theorem add (h : r.Under options) {flow : Flow} (hflow : flow.ReadUnder options) :
    (r.add flow).Under options :=
  { h with inner := ⟨h.inner, hflow⟩ }

theorem openBlock (h : r.Under options) {b : OpenBlock} (hb : b.ReadUnder options) :
    (r.openBlock b).Under options :=
  { h with inner := trivial, outer := List.forall_mem_cons.mpr ⟨⟨hb, h.inner⟩, h.outer⟩ }

theorem endFunction (h : r.Under options) {function : String}
    (hname : isSymbol function.toList = true) : (r.endFunction function).Under options := by
  refine { h with functions := ?_, function := by simp [Reading.endFunction], inner := trivial,
                  locals := by simp [Reading.endFunction] }
  refine List.forall_mem_append.mpr ⟨h.functions, ?_⟩
  intro f hf
  obtain rfl := List.mem_singleton.mp hf
  exact ⟨hname, h.inner⟩

theorem setGlobals (h : r.Under options) (hr : r.setGlobals = .ok r') : r'.Under options := by
  refine foldlM_preserves ?_ h hr
  intro q init q' hinit hq hset
  obtain ⟨value, hvalue, hset⟩ := bind_eq_ok.mp hset
  obtain rfl := Except.ok.inj hset
  exact hq.add (.initial hq.globalScope (h.allocation.initializers init hinit) hvalue)

theorem statement (h : r.Under options) {text : List Char} (hr : r.statement text = .ok r') :
    r'.Under options := by
  obtain ⟨s, hs, hr⟩ := bind_eq_ok.mp hr
  obtain rfl := Except.ok.inj hr
  exact h.add (.text h.scope hs)

theorem part (h : r.Under options) {text : Option String} (hr : r.part text = .ok r') :
    r'.Under options := by
  cases text with
  | none =>
    obtain rfl := Except.ok.inj hr
    exact h
  | some text => exact h.statement hr

theorem condition (h : r.Under options) {text : String} {c : Condition}
    (hc : r.condition text = .ok c) : c.ReadUnder options :=
  ⟨r.scope, text.toList, h.scope, hc⟩

theorem openFor (h : r.Under options) {header : LoopHeader} (hr : r.openFor header = .ok r') :
    r'.Under options := by
  obtain ⟨r₁, hr₁, hr⟩ := bind_eq_ok.mp hr
  have h₁ := h.part hr₁
  split at hr
  · obtain rfl := Except.ok.inj hr
    exact h₁.openBlock (by simp [OpenBlock.ReadUnder])
  · obtain ⟨c, hc, hr⟩ := bind_eq_ok.mp hr
    obtain rfl := Except.ok.inj hr
    refine h₁.openBlock ?_
    simpa [OpenBlock.ReadUnder] using h₁.condition hc

theorem leaveBlock (h : r.Under options) {b : OpenBlock} {before : Flow}
    {outer : List (OpenBlock × Flow)} (houter : r.outer = (b, before) :: outer) :
    b.ReadUnder options ∧ { r with inner := before, outer }.Under options := by
  have hentries := h.outer
  rw [houter, List.forall_mem_cons] at hentries
  exact ⟨hentries.1.1, { h with inner := hentries.1.2, outer := hentries.2 }⟩

theorem close (h : r.Under options) {function : String}
    (hname : isSymbol function.toList = true) (hr : r.close function = .ok r') :
    r'.Under options := by
  unfold Reading.close at hr
  split at hr
  · obtain rfl := Except.ok.inj hr
    exact h.endFunction hname
  · rename_i c before outer houter
    obtain rfl := Except.ok.inj hr
    obtain ⟨hc, haround⟩ := h.leaveBlock houter
    refine { haround with pendingIf := ?_ }
    intro e he
    obtain rfl := Option.some.inj he
    exact ⟨hc, h.inner⟩
  · rename_i c yes before outer houter
    obtain rfl := Except.ok.inj hr
    obtain ⟨⟨hc, hyes⟩, haround⟩ := h.leaveBlock houter
    exact haround.add ⟨hc, hyes, h.inner⟩
  · rename_i c before outer houter
    obtain rfl := Except.ok.inj hr
    obtain ⟨hc, haround⟩ := h.leaveBlock houter
    refine haround.add ⟨fun c' hc' => ?_, h.inner⟩
    exact Option.some.inj hc' ▸ hc
  · rename_i c step before outer houter
    obtain ⟨r₁, hr₁, hr⟩ := bind_eq_ok.mp hr
    obtain rfl := Except.ok.inj hr
    have h₁ := h.part hr₁
    -- the step of the loop changes nothing but the body
    have houter₁ : r₁.outer = (.forLoop c step, before) :: outer := by
      rw [Reading.part_eq_ok hr₁, houter]
    obtain ⟨hc, haround⟩ := h₁.leaveBlock houter₁
    exact haround.add ⟨hc, h₁.inner⟩

theorem declareLocal (h : r.Under options) {d : Declaration} {location : Location}
    (hr : r.declareLocal d location = .ok r') : r'.Under options := by
  obtain ⟨⟨v, allocation⟩, hplace, hr⟩ := bind_eq_ok.mp hr
  obtain ⟨hv, hallocation⟩ := h.allocation.place hplace
  have hdeclared : { r with allocation, locals := r.locals ++ [v] }.Under options := by
    refine { h with allocation := hallocation, locals := ?_ }
    refine List.forall_mem_append.mpr ⟨h.locals, ?_⟩
    simpa using hv
  cases hinitial : d.initial with
  | none =>
    simp only [hinitial] at hr
    obtain rfl := Except.ok.inj hr
    exact hdeclared
  | some text =>
    simp only [hinitial] at hr
    obtain ⟨value, hvalue, hr⟩ := bind_eq_ok.mp hr
    obtain rfl := Except.ok.inj hr
    exact hdeclared.add (.initial hdeclared.scope hv hvalue)

theorem bodyLine (h : r.Under options) {function : String}
    (hname : isSymbol function.toList = true) {text : List Char} {location : Location}
    (hr : r.bodyLine function text location = .ok r') : r'.Under options := by
  unfold Reading.bodyLine at hr
  obtain ⟨declaration, -, hr⟩ := bind_eq_ok.mp hr
  cases declaration with
  | some d => exact h.declareLocal hr
  | none =>
  obtain ⟨ifHeader, -, hr⟩ := bind_eq_ok.mp hr
  cases ifHeader with
  | some text =>
    obtain ⟨c, hc, hr⟩ := bind_eq_ok.mp hr
    obtain rfl := Except.ok.inj hr
    exact h.openBlock (h.condition hc)
  | none =>
  obtain ⟨whileHeader, -, hr⟩ := bind_eq_ok.mp hr
  cases whileHeader with
  | some text =>
    obtain ⟨c, hc, hr⟩ := bind_eq_ok.mp hr
    obtain rfl := Except.ok.inj hr
    exact h.openBlock (h.condition hc)
  | none =>
  obtain ⟨loopHeader, -, hr⟩ := bind_eq_ok.mp hr
  cases loopHeader with
  | some header => exact h.openFor hr
  | none =>
  simp only at hr
  split at hr
  · exact h.close hname hr
  · exact h.statement hr

theorem innerLine (h : r.Under options) {function : String}
    (hname : isSymbol function.toList = true) {text : List Char} {location : Location}
    (hr : r.innerLine function text location = .ok r') : r'.Under options := by
  unfold Reading.innerLine at hr
  split at hr
  · exact h.bodyLine hname hr
  · rename_i c yes hpending
    obtain ⟨hc, hyes⟩ := h.pendingIf (c, yes) hpending
    have hsettled : { r with pendingIf := none }.Under options := { h with pendingIf := by simp }
    split at hr
    · obtain rfl := Except.ok.inj hr
      exact hsettled.openBlock ⟨hc, hyes⟩
    · have hended : (Flow.branch c yes .skip).ReadUnder options := ⟨hc, hyes, trivial⟩
      exact bodyLine (hsettled.add hended) hname hr

theorem openFunction (h : r.Under options) {name : String} (hname : isSymbol name.toList = true)
    (hr : r.openFunction name = .ok r') : r'.Under options := by
  obtain ⟨r₁, hr₁, hr⟩ := bind_eq_ok.mp hr
  obtain rfl := Except.ok.inj hr
  have h₁ : r₁.Under options := by
    unfold Reading.enterFunction at hr₁
    split at hr₁
    · exact h.setGlobals hr₁
    · obtain rfl := Except.ok.inj hr₁
      exact h
  refine { h₁ with locals := by simp, function := ?_ }
  intro name' hname'
  rwa [← Option.some.inj hname']

theorem topLine (h : r.Under options) {text : List Char} (hr : r.topLine text = .ok r') :
    r'.Under options := by
  have hstays (hr : (.ok r : Except Failure Reading) = .ok r') : r'.Under options := by
    obtain rfl := Except.ok.inj hr
    exact h
  unfold Reading.topLine at hr
  obtain ⟨declaration, -, hr⟩ := bind_eq_ok.mp hr
  split at hr
  · exact hstays hr
  obtain ⟨external, -, hr⟩ := bind_eq_ok.mp hr
  split at hr
  · exact hstays hr
  obtain ⟨prototype, -, hr⟩ := bind_eq_ok.mp hr
  split at hr
  · exact hstays hr
  obtain ⟨start, hstart, hr⟩ := bind_eq_ok.mp hr
  cases start with
  | none => simp [fail] at hr
  | some name => exact h.openFunction (functionStart?_symbol hstart) hr

theorem line (h : r.Under options) {file : SourceFile} {line : SourceLine}
    (hr : r.line file line = .ok r') : r'.Under options := by
  unfold Reading.line at hr
  split at hr
  · exact h.topLine hr
  · rename_i function hfunction
    exact h.innerLine (h.function function hfunction) hr

theorem addInit (h : r.Under options) (hr : r.addInit = .ok r') : r'.Under options := by
  unfold Reading.addInit at hr
  split at hr
  · obtain rfl := Except.ok.inj hr
    exact h
  · obtain ⟨r₁, hr₁, hr⟩ := bind_eq_ok.mp hr
    obtain rfl := Except.ok.inj hr
    exact (h.setGlobals hr₁).endFunction (by decide)

end Reading.Under

theorem readFunctions_readUnder {current : List String} {options : Options}
    {files : List SourceFile} {functions : List Function}
    (h : readFunctions current options files = .ok functions) :
    ∀ f ∈ functions, f.ReadUnder options := by
  unfold readFunctions at h
  obtain ⟨allocation, hallocation, h⟩ := bind_eq_ok.mp h
  obtain ⟨r, hr, h⟩ := bind_eq_ok.mp h
  obtain ⟨r', hr', h⟩ := bind_eq_ok.mp h
  obtain rfl := Except.ok.inj h
  have hplaced : allocation.Placed options :=
    Allocation.Placed.addFiles ⟨Int.le_refl _, by simp, by simp⟩ hallocation
  have hstart : ({ constants := options.constants, allocation } : Reading).Under options :=
    ⟨rfl, hplaced, by simp, by simp, by simp, trivial, by simp, by simp⟩
  have hfile (r : Reading) (f : SourceFile) (r' : Reading) (h : r.Under options)
      (hr : r.file f = .ok r') : r'.Under options :=
    foldlM_preserves (fun r l r' _ h hr => Reading.Under.line h hr) h hr
  exact (foldlM_preserves (fun r f r' _ => hfile r f r') (hstart.addInit hr) hr').functions

end Toolchain6502.C
