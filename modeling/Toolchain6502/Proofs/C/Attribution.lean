import Mathlib.Logic.Relation
import Toolchain6502.Proofs.C.CompiledCode
import Toolchain6502.Proofs.Files.Places

namespace Toolchain6502.C

open Files Source

variable {location : Location} {p p' : Pass} {current : List String} {f : SourceFile}

/-- Code has been written for the line that is being compiled. -/
structure Pass.Writes (p p' : Pass) : Prop where
  lines : ∃ code : Code,
    p'.emitter.lines = p.emitter.lines ++ code.map fun l => (l, p.emitter.origin)
  origin : p'.emitter.origin = p.emitter.origin
  initializers : p'.allocation.initializers = p.allocation.initializers
  functions : p'.functions = p.functions

namespace Pass.Writes

variable {p p' p'' : Pass}

theorem nothing (hemitter : p'.emitter = p.emitter)
    (hinitializers : p'.allocation.initializers = p.allocation.initializers)
    (hfunctions : p'.functions = p.functions) : p.Writes p' :=
  ⟨⟨[], by simp [hemitter]⟩, by rw [hemitter], hinitializers, hfunctions⟩

theorem trans (h : p.Writes p') (h' : p'.Writes p'') : p.Writes p'' := by
  obtain ⟨code, hcode⟩ := h.lines
  obtain ⟨code', hcode'⟩ := h'.lines
  refine ⟨⟨code ++ code', ?_⟩, h'.origin.trans h.origin, h'.initializers.trans h.initializers,
    h'.functions.trans h.functions⟩
  rw [hcode', hcode, h.origin, List.map_append, List.append_assoc]

theorem emit (p : Pass) (code : Code) : p.Writes (p.emit code) := ⟨⟨code, rfl⟩, rfl, rfl, rfl⟩

theorem generate {check : Except NumberFault Unit} {code : Nat → Code × Nat}
    (h : p.generate check code = .ok p') : p.Writes p' := by
  obtain rfl := Pass.generate_eq_ok h
  exact ⟨⟨(code p.emitter.labels).1, rfl⟩, rfl, rfl, rfl⟩

theorem freshLabel (p : Pass) (stem : String) : p.Writes (p.freshLabel stem).2 :=
  ⟨⟨[], by simp [Pass.freshLabel, Emitter.freshLabel]⟩, rfl, rfl, rfl⟩

theorem condition {text otherwise : String} (h : p.condition text otherwise = .ok p') :
    p.Writes p' := by
  obtain ⟨c, -, h⟩ := bind_eq_ok.mp h
  exact generate h

theorem statement {function : String} {text : List Char}
    (h : p.statement function text = .ok p') : p.Writes p' := by
  obtain ⟨s, -, h⟩ := bind_eq_ok.mp h
  exact generate h

theorem part {function : String} {text : Option String} (h : p.part function text = .ok p') :
    p.Writes p' := by
  cases text with
  | none => exact Except.ok.inj h ▸ nothing rfl rfl rfl
  | some text => exact statement h

theorem openIf {text : String} (h : p.openIf text = .ok p') : p.Writes p' := by
  obtain ⟨q, hq, h⟩ := bind_eq_ok.mp h
  obtain rfl := Except.ok.inj h
  have hlabels := (freshLabel p "CIFEND").trans (freshLabel _ "CIFELSE")
  exact (hlabels.trans (condition hq)).trans (nothing rfl rfl rfl)

theorem openWhile {text : String} (h : p.openWhile text = .ok p') : p.Writes p' := by
  obtain ⟨q, hq, h⟩ := bind_eq_ok.mp h
  obtain rfl := Except.ok.inj h
  have hlabels := (freshLabel p "CWHILES").trans (freshLabel _ "CWHILEE")
  exact ((hlabels.trans (emit _ _)).trans (condition hq)).trans (nothing rfl rfl rfl)

theorem openFor {function : String} {header : LoopHeader}
    (h : p.openFor function header = .ok p') : p.Writes p' := by
  obtain ⟨q, hq, h⟩ := Pass.openFor_initial h
  refine (part hq).trans ?_
  have hlabels := (freshLabel q "CFORS").trans (freshLabel _ "CFORE")
  have hstart := hlabels.trans (emit _ [.label (q.freshLabel "CFORS").1])
  refine hstart.trans ?_
  cases hcondition : header.condition with
  | none =>
    simp only [Pass.openFor, hcondition] at h
    obtain rfl := Except.ok.inj h
    exact nothing rfl rfl rfl
  | some text =>
    simp only [Pass.openFor, hcondition, pure_eq_ok, ok_bind] at h
    obtain ⟨q', hq', h⟩ := bind_eq_ok.mp h
    obtain rfl := Except.ok.inj h
    exact (condition hq').trans (nothing rfl rfl rfl)

theorem close {function : String} (h : p.close function = .ok p') : p.Writes p' := by
  unfold Pass.close at h
  cases hblocks : p.blocks with
  | nil =>
    rw [hblocks] at h
    obtain rfl := Except.ok.inj h
    exact (emit p _).trans (nothing rfl rfl rfl)
  | cons b blocks =>
    rw [hblocks] at h
    have hpopped : p.Writes { p with blocks } := nothing rfl rfl rfl
    refine hpopped.trans ?_
    cases b with
    | thenPart elseLabel endLabel =>
      obtain rfl := Except.ok.inj h
      exact (emit { p with blocks } _).trans (nothing rfl rfl rfl)
    | elsePart endLabel => exact Except.ok.inj h ▸ emit _ _
    | whileLoop startLabel endLabel => exact Except.ok.inj h ▸ emit _ _
    | forLoop startLabel endLabel step =>
      cases step with
      | none => exact Except.ok.inj h ▸ emit _ _
      | some text =>
        obtain ⟨q, hq, h⟩ := bind_eq_ok.mp h
        exact Except.ok.inj h ▸ (statement hq).trans (emit _ _)

theorem declareLocal {d : Declaration} (h : p.declareLocal d location = .ok p') : p.Writes p' := by
  obtain ⟨-, v, allocation, hplace, h⟩ := declareLocal_eq_ok h
  have hplaced : p.Writes { p with allocation, locals := p.locals ++ [v] } :=
    nothing rfl (by rw [(place_eq_ok.mp hplace).2.2]) rfl
  rcases h with ⟨-, rfl⟩ | ⟨text, value, -, -, h⟩
  · exact hplaced
  · exact hplaced.trans (generate h)

theorem bodyLine {function : String} {text : List Char}
    (h : p.bodyLine function text location = .ok p') : p.Writes p' := by
  unfold Pass.bodyLine at h
  obtain ⟨d, -, h⟩ := bind_eq_ok.mp h
  cases d with
  | some d => exact declareLocal h
  | none =>
  obtain ⟨condition, -, h⟩ := bind_eq_ok.mp h
  cases condition with
  | some condition => exact openIf h
  | none =>
  obtain ⟨condition, -, h⟩ := bind_eq_ok.mp h
  cases condition with
  | some condition => exact openWhile h
  | none =>
  obtain ⟨header, -, h⟩ := bind_eq_ok.mp h
  cases header with
  | some header => exact openFor h
  | none =>
  by_cases htext : text = ['\x7d']
  · exact close (by simpa [htext] using h)
  · exact statement (by simpa [htext] using h)

theorem innerLine {function : String} {text : List Char}
    (h : p.innerLine function text location = .ok p') : p.Writes p' := by
  unfold Pass.innerLine at h
  split at h
  · exact bodyLine h
  · rename_i endLabel hpending
    split at h
    · obtain rfl := Except.ok.inj h
      exact nothing rfl rfl rfl
    · have hended : p.Writes { p with pendingEnd := none } := nothing rfl rfl rfl
      exact (hended.trans (emit _ _)).trans (bodyLine h)

end Pass.Writes

/-- The initial values of some globals have been written, each for the line that declares it. -/
def Pass.Initializes : Pass → Pass → Prop :=
  Relation.ReflTransGen fun p p' => ∃ i ∈ p.allocation.initializers,
    (p.moveTo i.file i.target.location.line).Writes p'

/-- A function has been opened: its label is written for the line, and the initial values follow in
the function that sets them. -/
structure Pass.Opens (p : Pass) (name : String) (p' : Pass) : Prop where
  fresh : p.functions.lookup name = none
  opened : ∃ location q,
    ({ p with functions := p.functions ++ [(name, location)] }.emit [.label name]).Initializes q ∧
    p'.emitter.lines = q.emitter.lines ∧ p'.functions = q.functions ∧
    p'.allocation.initializers = q.allocation.initializers

theorem Pass.setGlobal_writes {i : Initializer} (h : p.setGlobal i = .ok p') :
    (p.moveTo i.file i.target.location.line).Writes p' := by
  obtain ⟨value, -, h⟩ := bind_eq_ok.mp h
  exact .generate h

theorem Pass.setGlobals_initializes (h : p.setGlobals = .ok p') : p.Initializes p' := by
  -- The list that is walked is the one of the start, so each step has to keep it.
  have hall : p.Initializes p' ∧ p'.allocation.initializers = p.allocation.initializers := by
    refine foldlM_preserves (P := fun q => p.Initializes q ∧
      q.allocation.initializers = p.allocation.initializers) ?_ ⟨.refl, rfl⟩ h
    rintro q i q' hi ⟨hq, hsame⟩ hset
    have hwrites := Pass.setGlobal_writes hset
    exact ⟨hq.tail ⟨i, hsame ▸ hi, hwrites⟩, hwrites.initializers.trans hsame⟩
  exact hall.1

theorem Pass.openFunction_opens {name : String} (h : p.openFunction name location = .ok p') :
    p.Opens name p' := by
  unfold Pass.openFunction at h
  cases hfirst : p.functions.lookup name with
  | some first => simp [hfirst, fail] at h
  | none =>
  refine ⟨hfirst, location, ?_⟩
  simp only [hfirst] at h
  by_cases hinit : name = "Init"
  · simp only [hinit, if_true] at h ⊢
    obtain ⟨q, hq, h⟩ := bind_eq_ok.mp h
    obtain rfl := Except.ok.inj h
    exact ⟨q, Pass.setGlobals_initializes hq, rfl, rfl, rfl⟩
  · simp only [hinit, if_false] at h
    obtain rfl := Except.ok.inj h
    exact ⟨_, .refl, rfl, rfl, rfl⟩

/-- All that a line outside functions can be to the pass that generates code. -/
inductive Pass.TopLine (p : Pass) (line : SourceLine) (location : Location) : Pass → Prop
  | global {d : Declaration} (h : declaration? line.text = .ok (some d)) : TopLine p line location p
  | external (h : isExternal line.text = .ok true) : TopLine p line location p
  | prototype {name : String} (h : prototype? line.text = .ok (some name)) :
      TopLine p line location p
  | function {name : String} {p' : Pass} (h : functionStart? line.text = .ok (some name))
      (hopen : p.openFunction name location = .ok p') : TopLine p line location p'

theorem Pass.topLine_reads {line : SourceLine} (h : p.topLine line location = .ok p') :
    p.TopLine line location p' := by
  unfold Pass.topLine at h
  obtain ⟨d, hd, h⟩ := bind_eq_ok.mp h
  cases d with
  | some d =>
    obtain rfl := Except.ok.inj h
    exact .global hd
  | none =>
  simp only [Option.isSome_none, Bool.false_eq_true, if_false] at h
  obtain ⟨external, hexternal, h⟩ := bind_eq_ok.mp h
  cases external with
  | true =>
    obtain rfl := Except.ok.inj h
    exact .external hexternal
  | false =>
  simp only [Bool.false_eq_true, if_false] at h
  obtain ⟨prototype, hprototype, h⟩ := bind_eq_ok.mp h
  cases prototype with
  | some name =>
    obtain rfl := Except.ok.inj h
    exact .prototype hprototype
  | none =>
  simp only [Option.isSome_none, Bool.false_eq_true, if_false] at h
  obtain ⟨start, hstart, h⟩ := bind_eq_ok.mp h
  cases start with
  | none => simp [fail] at h
  | some name => exact .function hstart h

theorem Pass.topLine_cases {line : SourceLine} (h : p.topLine line location = .ok p') :
    p' = p ∨ ∃ name, p.Opens name p' := by
  cases topLine_reads h with
  | global | external | prototype => exact .inl rfl
  | function _ hopen => exact .inr ⟨_, openFunction_opens hopen⟩

/-- Everything that a line can do: it writes code for itself, or it opens a function. -/
theorem Pass.line_cases {file : SourceFile} {path : Path} {line : SourceLine}
    (h : p.line file path line = .ok p') :
    (p.moveTo path line.number).Writes p' ∨ ∃ name, (p.moveTo path line.number).Opens name p' := by
  have h := atLine_eq_ok.mp h
  cases hfunction : (p.moveTo path line.number).function with
  | none =>
    simp only [hfunction] at h
    rcases Pass.topLine_cases h with rfl | hopens
    · exact .inl (.nothing rfl rfl rfl)
    · exact .inr hopens
  | some function =>
    simp only [hfunction] at h
    exact .inl (.innerLine h)

/-- Generated lines and initial values stand for C lines of a given kind. -/
structure Pass.Attributed (good : Origin → Prop) (p : Pass) : Prop where
  lines : ∀ l ∈ p.emitter.lines, good l.2
  initializers : ∀ i ∈ p.allocation.initializers, good ⟨i.file, i.target.location.line⟩

section Attributed

variable {good : Origin → Prop} {p p' : Pass}

theorem Pass.Attributed.writes (h : p.Attributed good) (horigin : good p.emitter.origin)
    (hp : p.Writes p') : p'.Attributed good := by
  obtain ⟨code, hcode⟩ := hp.lines
  constructor
  · rw [hcode]
    refine List.forall_mem_append.mpr ⟨h.lines, ?_⟩
    intro l hl
    obtain ⟨line, -, rfl⟩ := List.mem_map.mp hl
    exact horigin
  · rw [hp.initializers]
    exact h.initializers

theorem Pass.Attributed.initializes (h : p.Attributed good) (horigin : good p.emitter.origin)
    (hp : p.Initializes p') : p'.Attributed good ∧ good p'.emitter.origin := by
  induction hp with
  | refl => exact ⟨h, horigin⟩
  | @tail q _ _ hstep ih =>
    obtain ⟨i, hi, hwrites⟩ := hstep
    have hmoved : (q.moveTo i.file i.target.location.line).Attributed good :=
      ⟨ih.1.lines, ih.1.initializers⟩
    have hgood := ih.1.initializers i hi
    exact ⟨hmoved.writes hgood hwrites, hwrites.origin ▸ hgood⟩

theorem Pass.Attributed.opens (h : p.Attributed good) (horigin : good p.emitter.origin)
    {name : String} (hp : p.Opens name p') : p'.Attributed good := by
  obtain ⟨location, q, hq, hlines, -, hinitializers⟩ := hp.opened
  have hnamed : { p with functions := p.functions ++ [(name, location)] }.Attributed good :=
    ⟨h.lines, h.initializers⟩
  obtain ⟨hset, -⟩ := (hnamed.writes horigin (.emit _ _)).initializes horigin hq
  exact ⟨hlines ▸ hset.lines, hinitializers ▸ hset.initializers⟩

theorem Pass.Attributed.line (h : p.Attributed good) {file : SourceFile} {path : Path}
    {line : SourceLine} (hgood : good ⟨path, line.number⟩)
    (hp : p.line file path line = .ok p') : p'.Attributed good := by
  have hmoved : (p.moveTo path line.number).Attributed good := ⟨h.lines, h.initializers⟩
  rcases Pass.line_cases hp with hwrites | ⟨name, hopens⟩
  · exact hmoved.writes hgood hwrites
  · exact hmoved.opens hgood hopens

end Attributed

theorem canonical_eq_ok {p q : Path} (h : canonical current p = .ok q) :
    q = p.resolved current := by
  unfold canonical at h
  split at h
  · rename_i r hr
    unfold Path.resolve? at hr
    split at hr
    · simp at hr
    · rw [← Except.ok.inj h, ← Option.some.inj hr]
      rfl
  · simp at h

/-- An origin is a line of a C file that is neither blank nor an include. -/
def SourceFile.Holds (current : List String) (f : SourceFile) (o : Origin) : Prop :=
  ∃ line ∈ sourceLines f.text, o = ⟨f.path.resolved current, line.number⟩

section Files

variable {good : Origin → Prop} {current : List String}

theorem Pass.Attributed.file (h : p.Attributed good) (hgood : ∀ o, f.Holds current o → good o)
    (hp : p.file current f = .ok p') : p'.Attributed good := by
  obtain ⟨path, hpath, hp⟩ := bind_eq_ok.mp hp
  obtain ⟨q, hq, hp⟩ := bind_eq_ok.mp hp
  have hlines : q.Attributed good := by
    refine foldlM_preserves ?_ h hq
    intro p line p' hline h hp
    exact h.line (hgood _ ⟨line, hline, by rw [canonical_eq_ok hpath]⟩) hp
  split at hp
  · simp at hp
  · exact Except.ok.inj hp ▸ hlines

theorem Pass.Attributed.addInit (h : p.Attributed good) (hp : p.addInit = .ok p') :
    p'.Attributed good := by
  unfold Pass.addInit at hp
  cases hinitializers : p.allocation.initializers with
  | nil =>
    simp only [hinitializers] at hp
    exact Except.ok.inj hp ▸ h
  | cons first rest =>
    simp only [hinitializers] at hp
    split at hp
    · exact Except.ok.inj hp ▸ h
    · obtain ⟨q, hq, hp⟩ := bind_eq_ok.mp hp
      have hgood : good ⟨first.file, first.target.location.line⟩ :=
        h.initializers first (hinitializers ▸ List.mem_cons_self)
      have hmoved : (p.moveTo first.file first.target.location.line).Attributed good :=
        ⟨h.lines, h.initializers⟩
      have hlabel := hmoved.writes hgood (.emit _ [.label "Init"])
      have hnamed : { (p.moveTo first.file first.target.location.line).emit [.label "Init"] with
          functions := p.functions ++ [("Init", first.target.location)] }.Attributed good :=
        ⟨hlabel.lines, hlabel.initializers⟩
      obtain ⟨hset, horigin⟩ := hnamed.initializes hgood (Pass.setGlobals_initializes hq)
      exact Except.ok.inj hp ▸ hset.writes horigin (.emit _ _)

def Allocation.Attributed (good : Origin → Prop) (a : Allocation) : Prop :=
  ∀ i ∈ a.initializers, good ⟨i.file, i.target.location.line⟩

theorem Allocation.Attributed.addGlobal {a a' : Allocation} (h : a.Attributed good)
    {line : SourceLine} (hgood : good ⟨f.path.resolved current, line.number⟩) {d : Declaration}
    (ha : a.addGlobal current f.path line (f.location line) d = .ok a') : a'.Attributed good := by
  obtain ⟨-, added, rfl, hadded, -⟩ := Allocation.addGlobal_eq_ok ha
  refine List.forall_mem_append.mpr ⟨h, fun i hi => ?_⟩
  obtain ⟨htarget, hfile⟩ := hadded i hi
  rw [htarget, canonical_eq_ok hfile]
  exact hgood

theorem Allocation.Attributed.addFile {a a' : Allocation} (h : a.Attributed good)
    (hgood : ∀ o, f.Holds current o → good o) (ha : Allocation.addFile current a f = .ok a') :
    a'.Attributed good := by
  refine Allocation.addLines_preserves ?_ ?_ h ha
  · exact fun a declared h => h
  · exact fun line hline a d a' h ha => h.addGlobal (hgood _ ⟨line, hline, rfl⟩) ha

end Files

/-- Every line of the assembly stands for a C line that is neither blank nor an include. -/
theorem compile_attributed {options : Options} {files : List SourceFile} {compiled : Compiled}
    (h : compile current options files = .ok compiled) :
    ∀ l ∈ compiled.lines, ∃ f ∈ files, f.Holds current l.2 := by
  obtain ⟨allocation, hallocation, h⟩ := bind_eq_ok.mp h
  obtain ⟨p, hp, h⟩ := bind_eq_ok.mp h
  obtain ⟨q, hq, h⟩ := bind_eq_ok.mp h
  obtain rfl := Except.ok.inj h
  let good : Origin → Prop := fun o => ∃ f ∈ files, f.Holds current o
  -- The initial values get their origins when the globals are placed, before any line is written.
  have hplaced : allocation.Attributed good := by
    refine foldlM_preserves ?_ (by simp [Allocation.Attributed]) hallocation
    intro a f a' hf ha hadd
    exact ha.addFile (fun o ho => ⟨f, hf, ho⟩) hadd
  have hstart : Pass.Attributed good { constants := options.constants, allocation } :=
    ⟨by simp, hplaced⟩
  have hend : q.Attributed good := by
    refine foldlM_preserves ?_ (hstart.addInit hp) hq
    intro p f p' hf h hp
    exact h.file (fun o ho => ⟨f, hf, ho⟩) hp
  exact hend.lines

/-- No two functions have the same name. -/
def Pass.Distinct (p : Pass) : Prop := (p.functions.map Prod.fst).Nodup

theorem Pass.Initializes.functions_eq (h : p.Initializes p') : p'.functions = p.functions := by
  induction h with
  | refl => rfl
  | tail _ hstep ih =>
    obtain ⟨i, -, hwrites⟩ := hstep
    exact hwrites.functions.trans ih

theorem Pass.Distinct.opens (h : p.Distinct) {name : String} (hopens : p.Opens name p') :
    p'.Distinct := by
  obtain ⟨location, q, hq, -, hfunctions, -⟩ := hopens.opened
  have hnew : name ∉ p.functions.map Prod.fst := by
    intro hname
    obtain ⟨e, he, rfl⟩ := List.mem_map.mp hname
    simpa using List.lookup_eq_none_iff.mp hopens.fresh e he
  have hnames : p'.functions = p.functions ++ [(name, location)] :=
    hfunctions.trans hq.functions_eq
  unfold Pass.Distinct
  rw [hnames, List.map_append]
  refine List.nodup_append.mpr ⟨h, by simp, ?_⟩
  rintro other hother _ hname rfl
  rw [List.mem_singleton.mp hname] at hother
  exact hnew hother

theorem Pass.Distinct.file (h : p.Distinct) (hp : p.file current f = .ok p') : p'.Distinct := by
  obtain ⟨path, -, hp⟩ := bind_eq_ok.mp hp
  obtain ⟨q, hq, hp⟩ := bind_eq_ok.mp hp
  have hlines : q.Distinct := by
    refine foldlM_preserves ?_ h hq
    intro p line p' _ h hp
    rcases Pass.line_cases hp with hwrites | ⟨name, hopens⟩
    · unfold Pass.Distinct
      rw [hwrites.functions]
      exact h
    · exact Pass.Distinct.opens (p := p.moveTo path line.number) h hopens
  split at hp
  · simp at hp
  · exact Except.ok.inj hp ▸ hlines

theorem Pass.addInit_functions (hp : p.addInit = .ok p') :
    p'.functions = p.functions ∨ ∃ location, p'.functions = p.functions ++ [("Init", location)] := by
  unfold Pass.addInit at hp
  cases hinitializers : p.allocation.initializers with
  | nil =>
    simp only [hinitializers] at hp
    exact .inl (Except.ok.inj hp ▸ rfl)
  | cons first rest =>
    simp only [hinitializers] at hp
    split at hp
    · exact .inl (Except.ok.inj hp ▸ rfl)
    · obtain ⟨q, hq, hp⟩ := bind_eq_ok.mp hp
      obtain rfl := Except.ok.inj hp
      exact .inr ⟨_, (Pass.setGlobals_initializes hq).functions_eq⟩

theorem compile_functions_nodup {options : Options} {files : List SourceFile} {compiled : Compiled}
    (h : compile current options files = .ok compiled) : compiled.functions.Nodup := by
  obtain ⟨allocation, -, h⟩ := bind_eq_ok.mp h
  obtain ⟨p, hp, h⟩ := bind_eq_ok.mp h
  obtain ⟨q, hq, h⟩ := bind_eq_ok.mp h
  obtain rfl := Except.ok.inj h
  have hstart : p.Distinct := by
    unfold Pass.Distinct
    rcases Pass.addInit_functions hp with hnone | ⟨location, hone⟩
    · simp [hnone]
    · simp [hone]
  have hend : q.Distinct := foldlM_preserves (fun p f p' _ h hp => h.file hp) hstart hq
  exact hend

end Toolchain6502.C
