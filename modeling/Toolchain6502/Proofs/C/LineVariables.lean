import Toolchain6502.Proofs.C.Passes

namespace Toolchain6502.C

open Files Source Text

def Pass.localAt? (p : Pass) (line : SourceLine) : Option Declaration :=
  if p.function.isSome then globalAt? line.text else none

/-- All that a line can do to the variables, told by the one that it declares. -/
inductive Pass.Extends (p p' : Pass) (location : Location) : Option Declaration → Prop
  | nothing (hconstants : p'.constants = p.constants) (hallocation : p'.allocation = p.allocation)
      (hlocals : p'.locals = p.locals ∨ p'.locals = []) : Extends p p' location none
  | places {d : Declaration} {v : Variable} {a : Allocation}
      (hnew : (p.allocation.globals ++ p.locals).find? (·.name = d.name) = none)
      (hplace : p.allocation.place d.name location = .ok (v, a))
      (hconstants : p'.constants = p.constants) (hallocation : p'.allocation = a)
      (hlocals : p'.locals = p.locals ++ [v]) : Extends p p' location (some d)

namespace Pass

variable {p p' q : Pass} {function : String} {location : Location}

theorem Keeps.trans (h : p.Keeps q) (h' : q.Keeps p') : p.Keeps p' :=
  ⟨h'.constants.trans h.constants, h'.allocation.trans h.allocation, h'.locals.trans h.locals,
    h'.function.trans h.function, h'.functions.trans h.functions⟩

theorem Keeps.extends (h : p.Keeps p') : p.Extends p' location none :=
  .nothing h.constants h.allocation (.inl h.locals)

theorem Extends.after {d : Option Declaration} (h : p.Keeps q) (h' : q.Extends p' location d) :
    p.Extends p' location d := by
  cases h' with
  | nothing hconstants hallocation hlocals =>
    exact .nothing (hconstants.trans h.constants) (hallocation.trans h.allocation)
      (hlocals.imp_left (·.trans h.locals))
  | places hnew hplace hconstants hallocation hlocals =>
    rw [h.allocation, h.locals] at hnew
    rw [h.allocation] at hplace
    rw [h.locals] at hlocals
    exact .places hnew hplace (hconstants.trans h.constants) hallocation hlocals

theorem Keeps.generate {check : Except NumberFault Unit} {code : Nat → Code × Nat}
    (h : p.generate check code = .ok p') : p.Keeps p' := by
  obtain rfl := generate_eq_ok h
  exact ⟨rfl, rfl, rfl, rfl, rfl⟩

theorem Keeps.statement {text : List Char} (h : p.statement function text = .ok p') :
    p.Keeps p' := by
  obtain ⟨s, -, h⟩ := bind_eq_ok.mp h
  exact .generate h

theorem Keeps.part {text : Option String} (h : p.part function text = .ok p') : p.Keeps p' := by
  cases text with
  | none => exact Except.ok.inj h ▸ ⟨rfl, rfl, rfl, rfl, rfl⟩
  | some text => exact .statement h

theorem declareLocal_extends {d : Declaration} (h : p.declareLocal d location = .ok p') :
    p.Extends p' location (some d) := by
  obtain ⟨hfirst, v, allocation, hplace, h⟩ := declareLocal_eq_ok h
  have hkeeps : Keeps { p with allocation, locals := p.locals ++ [v] } p' := by
    rcases h with ⟨-, rfl⟩ | ⟨text, value, -, -, h⟩
    · exact ⟨rfl, rfl, rfl, rfl, rfl⟩
    · exact .generate h
  exact .places hfirst hplace hkeeps.constants hkeeps.allocation hkeeps.locals

theorem close_extends (h : p.close function = .ok p') : p.Extends p' location none := by
  unfold close at h
  cases hblocks : p.blocks with
  | nil =>
    rw [hblocks] at h
    obtain rfl := Except.ok.inj h
    exact .nothing rfl rfl (.inr rfl)
  | cons b blocks =>
    rw [hblocks] at h
    have hkeeps : Keeps { p with blocks } p' := by
      cases b with
      | thenPart elseLabel endLabel => exact Except.ok.inj h ▸ ⟨rfl, rfl, rfl, rfl, rfl⟩
      | elsePart endLabel => exact Except.ok.inj h ▸ ⟨rfl, rfl, rfl, rfl, rfl⟩
      | whileLoop startLabel endLabel => exact Except.ok.inj h ▸ ⟨rfl, rfl, rfl, rfl, rfl⟩
      | forLoop startLabel endLabel step =>
        cases step with
        | none => exact Except.ok.inj h ▸ ⟨rfl, rfl, rfl, rfl, rfl⟩
        | some text =>
          obtain ⟨q, hq, h⟩ := bind_eq_ok.mp h
          exact Except.ok.inj h ▸ (Keeps.statement hq).trans ⟨rfl, rfl, rfl, rfl, rfl⟩
    have hpopped : p.Keeps { p with blocks } := ⟨rfl, rfl, rfl, rfl, rfl⟩
    exact (hpopped.trans hkeeps).extends

theorem bodyLine_extends {text : List Char} (h : p.bodyLine function text location = .ok p') :
    p.Extends p' location (globalAt? text) := by
  unfold bodyLine at h
  obtain ⟨d, hd, h⟩ := bind_eq_ok.mp h
  have hdeclared : globalAt? text = d := by simp [globalAt?, hd, Except.toOption]
  rw [hdeclared]
  cases d with
  | some d => exact declareLocal_extends h
  | none =>
  obtain ⟨c, -, h⟩ := bind_eq_ok.mp h
  cases c with
  | some c =>
    obtain ⟨-, -, hkeeps, -⟩ := openIf_eq_ok h
    exact hkeeps.extends
  | none =>
  obtain ⟨c, -, h⟩ := bind_eq_ok.mp h
  cases c with
  | some c =>
    obtain ⟨-, -, hkeeps, -⟩ := openWhile_eq_ok h
    exact hkeeps.extends
  | none =>
  obtain ⟨header, -, h⟩ := bind_eq_ok.mp h
  cases header with
  | some header =>
    obtain ⟨q, -, hq, hkeeps, -⟩ := openFor_eq_ok h
    exact ((Keeps.part hq).trans hkeeps).extends
  | none =>
  simp only at h
  split at h
  · exact close_extends h
  · exact (Keeps.statement h).extends

/-- An `else` ends in a brace, and a declaration in a semicolon. -/
theorem globalAt?_of_isElse {text : List Char} (h : isElse text = true) :
    globalAt? text = none := by
  cases hdeclared : globalAt? text with
  | none => rfl
  | some d =>
    have hsemicolon := getLast?_of_declaration? (globalAt?_eq_some.mp hdeclared)
    rw [getLast?_of_isElse h] at hsemicolon
    simp at hsemicolon

theorem innerLine_extends {text : List Char} (h : p.innerLine function text location = .ok p') :
    p.Extends p' location (globalAt? text) := by
  unfold innerLine at h
  split at h
  · exact bodyLine_extends h
  · rename_i endLabel _
    split at h
    · rename_i helse
      obtain rfl := Except.ok.inj h
      rw [globalAt?_of_isElse helse]
      exact .nothing rfl rfl (.inl rfl)
    · have hended : p.Keeps ({ p with pendingEnd := none }.emit [.label endLabel]) :=
        ⟨rfl, rfl, rfl, rfl, rfl⟩
      exact .after hended (bodyLine_extends h)

theorem openFunction_extends {name : String} {opened : Location} (location : Location)
    (h : p.openFunction name opened = .ok p') : p.Extends p' location none := by
  unfold openFunction at h
  cases hfirst : p.functions.lookup name with
  | some first => simp [hfirst, fail] at h
  | none =>
  simp only [hfirst] at h
  split at h
  · obtain ⟨q, hq, h⟩ := bind_eq_ok.mp h
    obtain rfl := Except.ok.inj h
    have hkeeps := (setGlobals_keeps hq).1
    exact .nothing hkeeps.constants hkeeps.allocation (.inr rfl)
  · obtain rfl := Except.ok.inj h
    exact .nothing rfl rfl (.inr rfl)

theorem addInit_extends (location : Location) (h : p.addInit = .ok p') : p.Extends p' location none := by
  unfold addInit at h
  split at h
  · exact Except.ok.inj h ▸ .nothing rfl rfl (.inl rfl)
  · split at h
    · exact Except.ok.inj h ▸ .nothing rfl rfl (.inl rfl)
    · obtain ⟨q, hq, h⟩ := bind_eq_ok.mp h
      obtain rfl := Except.ok.inj h
      have hkeeps := (setGlobals_keeps hq).1
      exact .nothing hkeeps.constants hkeeps.allocation (.inl hkeeps.locals)

theorem line_extends {file : SourceFile} {path : Path} {line : SourceLine}
    (h : p.line file path line = .ok p') :
    p.Extends p' (file.location line) (p.localAt? line) := by
  have hmoved : p.Keeps (p.moveTo path line.number) := ⟨rfl, rfl, rfl, rfl, rfl⟩
  have h := atLine_eq_ok.mp h
  unfold localAt?
  rw [← hmoved.function]
  cases hfunction : (p.moveTo path line.number).function with
  | none =>
    simp only [hfunction] at h
    rcases topLine_kind h with ⟨rfl, -⟩ | ⟨name, -, hopen⟩
    · exact hmoved.extends
    · exact .after hmoved (openFunction_extends _ hopen)
  | some function =>
    simp only [hfunction] at h
    exact .after hmoved (innerLine_extends h)

end Pass

end Toolchain6502.C
