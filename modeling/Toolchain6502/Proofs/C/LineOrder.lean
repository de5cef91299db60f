import Toolchain6502.Proofs.C.LineVariables
import Toolchain6502.Proofs.C.Names
import Toolchain6502.Proofs.Source.MergedUnits

namespace Toolchain6502.C

open Files Source Text

variable {current : List String} {f : SourceFile}

/-- An origin is a line of a C file that is not blank without its comment, and not an include. -/
def SourceFile.Authored (current : List String) (f : SourceFile) (o : Origin) : Prop :=
  ∃ (k : Nat) (source : String), (lines f.text)[k]? = some source ∧
    trim (stripComment source.toList) ≠ [] ∧
    "#include".toList.isPrefixOf (trim (stripComment source.toList)) = false ∧
    o = ⟨f.path.resolved current, (k : Int) + 1⟩

theorem mem_sourceLines {text : String} {line : SourceLine} (h : line ∈ sourceLines text) :
    ∃ k, (lines text)[k]? = some line.source ∧ line.number = k + 1 ∧
      line.text = trim (stripComment line.source.toList) ∧ line.text ≠ [] ∧
      "#include".toList.isPrefixOf line.text = false := by
  obtain ⟨⟨source, k⟩, hmem, hline⟩ := List.mem_filterMap.mp h
  simp only [sourceLine?, Option.ite_none_left_eq_some, Bool.or_eq_true, not_or,
    Bool.not_eq_true, List.isEmpty_eq_false_iff] at hline
  obtain ⟨⟨hblank, hinclude⟩, hline⟩ := hline
  obtain rfl := Option.some.inj hline
  exact ⟨k, List.mem_zipIdx_iff_getElem?.mp hmem, rfl, rfl, hblank, hinclude⟩

theorem SourceFile.Holds.authored {o : Origin} (h : f.Holds current o) : f.Authored current o := by
  obtain ⟨line, hline, rfl⟩ := h
  obtain ⟨k, hk, hnumber, htext, hblank, hinclude⟩ := mem_sourceLines hline
  rw [htext] at hblank hinclude
  refine ⟨k, line.source, hk, hblank, hinclude, ?_⟩
  rw [hnumber]
  rfl

theorem sourceLines_pairwise (text : String) :
    (sourceLines text).Pairwise (fun l l' => l.number < l'.number) := by
  have hindices : ((lines text).zipIdx).Pairwise (fun e e' => e.2 < e'.2) := by
    rw [List.pairwise_iff_getElem]
    intro i j hi hj hij
    simpa using hij
  refine hindices.filterMap _ ?_
  intro e e' hlt l hl l' hl'
  simp only [sourceLine?, Option.ite_none_left_eq_some] at hl hl'
  obtain rfl := Option.some.inj hl.2
  obtain rfl := Option.some.inj hl'.2
  exact Nat.add_lt_add_right hlt 1

/-- An initial value is the one of a variable that a line of some files declares. -/
def Initializer.DeclaredIn (current : List String) (files : List SourceFile) (i : Initializer) :
    Prop :=
  ∃ f ∈ files, ∃ line ∈ sourceLines f.text,
    globalAt? line.text = some ⟨i.target.name, some i.expression⟩ ∧
    i.target.location = f.location line ∧ i.file = f.path.resolved current

/-- Some lines are the code that sets an initial value, written for the line that declares it. -/
def Initializer.SetBy (scope : Scope) (i : Initializer) (code : List (CodeLine × Origin)) : Prop :=
  ∃ value n, readExpression scope i.expression.toList = .ok value ∧
    code = ((Statement.assign i.target.address value).code "Init" n).1.map
      fun l => (l, ⟨i.file, i.target.location.line⟩)

theorem Allocation.line_declaredIn {files : List SourceFile} (hf : f ∈ files) {line : SourceLine}
    (hline : line ∈ sourceLines f.text) {s s' : Nat × Allocation}
    (h : ∀ i ∈ s.2.initializers, i.DeclaredIn current files)
    (hs : Allocation.line current f s line = .ok s') :
    ∀ i ∈ s'.2.initializers, i.DeclaredIn current files := by
  obtain ⟨depth, a⟩ := s
  obtain ⟨depth', a'⟩ := s'
  cases depth with
  | succ depth =>
    obtain ⟨-, rfl⟩ := Prod.mk.inj (Except.ok.inj hs)
    exact h
  | zero =>
    cases Allocation.topLine_kind (atLine_eq_ok.mp hs) with
    | function _ _ => exact h
    | nothing _ _ => exact h
    | global hglobal hadd =>
      obtain ⟨-, added, rfl, hadded, hexpressions⟩ := addGlobal_eq_ok hadd
      refine List.forall_mem_append.mpr ⟨h, fun i hi => ?_⟩
      obtain ⟨htarget, hfile⟩ := hadded i hi
      have hinitial := List.mem_map_of_mem (f := Initializer.expression) hi
      rw [hexpressions, Option.mem_toList] at hinitial
      refine ⟨f, hf, line, hline, ?_, ?_, canonical_eq_ok hfile⟩
      · rw [hglobal, htarget, ← hinitial]
      · rw [htarget]

theorem Allocation.addFiles_declaredIn {files : List SourceFile} {a a' : Allocation}
    (hnone : a.initializers = []) (ha : files.foldlM (addFile current) a = .ok a') :
    ∀ i ∈ a'.initializers, i.DeclaredIn current files := by
  refine foldlM_preserves (P := fun a => ∀ i ∈ a.initializers, i.DeclaredIn current files) ?_
    (by simp [hnone]) ha
  intro a f a' hf h ha
  obtain ⟨depth, hlines⟩ := addFile_eq_ok ha
  exact foldlM_preserves (P := fun s => ∀ i ∈ s.2.initializers, i.DeclaredIn current files)
    (fun s line s' hline h hs => line_declaredIn hf hline h hs) h hlines

theorem Pass.foldlM_setGlobal {is : List Initializer} {p p' : Pass}
    (h : is.foldlM Pass.setGlobal p = .ok p') :
    p'.globalScope = p.globalScope ∧ ∃ blocks,
      List.Forall₂ (Initializer.SetBy p.globalScope) is blocks ∧
      p'.emitter.lines = p.emitter.lines ++ blocks.flatten := by
  induction is generalizing p with
  | nil =>
    obtain rfl := Except.ok.inj h
    exact ⟨rfl, [], .nil, by simp⟩
  | cons i is ih =>
    rw [List.foldlM_cons] at h
    obtain ⟨q, hq, h⟩ := bind_eq_ok.mp h
    obtain ⟨hscope, blocks, hblocks, hlines⟩ := ih h
    obtain ⟨value, hvalue, hq⟩ := bind_eq_ok.mp hq
    obtain rfl := generate_eq_ok hq
    refine ⟨hscope, _ :: blocks, .cons ⟨value, p.emitter.labels, atLine_eq_ok.mp hvalue, rfl⟩
      hblocks, ?_⟩
    rw [hlines, List.flatten_cons, ← List.append_assoc]
    rfl

/-- Lines of a program with the code of the initial values among them: behind a label `Init` that
is one of them, or in a function that is put in front. -/
inductive Laid (initial own : List (CodeLine × Origin)) : List (CodeLine × Origin) → Prop
  | plain (hnone : initial = []) : Laid initial own own
  | written {before after : List (CodeLine × Origin)} {o : Origin}
      (hown : own = before ++ (.label "Init", o) :: after) :
      Laid initial own (before ++ (.label "Init", o) :: (initial ++ after))
  | added {o o' : Origin} :
      Laid initial own ((.label "Init", o) :: (initial ++
        (leaveCode "Init", o') :: (.empty, o') :: own))

theorem Laid.append {initial own all : List (CodeLine × Origin)} (h : Laid initial own all)
    (more : List (CodeLine × Origin)) : Laid initial (own ++ more) (all ++ more) := by
  cases h with
  | plain hnone => exact .plain hnone
  | @written before after o hown =>
    have hmore : own ++ more = before ++ (.label "Init", o) :: (after ++ more) := by
      rw [hown, List.append_assoc, List.cons_append]
    rw [List.append_assoc, List.cons_append, List.append_assoc]
    exact .written hmore
  | added =>
    rw [List.cons_append, List.append_assoc]
    exact .added

/-- What a pass has written, with the lines among it that stand for themselves. -/
structure Pass.Lays (scope : Scope) (is : List Initializer) (p : Pass)
    (own : List (CodeLine × Origin)) : Prop where
  globalScope : p.globalScope = scope
  initializers : p.allocation.initializers = is
  lines : "Init" ∉ p.functions.map Prod.fst ∧ p.emitter.lines = own ∨
    "Init" ∈ p.functions.map Prod.fst ∧ ∃ blocks,
      List.Forall₂ (Initializer.SetBy scope) is blocks ∧
      Laid blocks.flatten own p.emitter.lines

section

variable {scope : Scope} {is : List Initializer} {p p' : Pass} {own : List (CodeLine × Origin)}

theorem Pass.Extends.globalScope {location : Location} {d : Option Declaration}
    (h : p.Extends p' location d) : p'.globalScope = p.globalScope := by
  cases h with
  | nothing hconstants hallocation _ => simp [Pass.globalScope, hconstants, hallocation]
  | places _ hplace hconstants hallocation _ =>
    obtain ⟨-, -, rfl⟩ := place_eq_ok.mp hplace
    simp [Pass.globalScope, hconstants, hallocation]

theorem Pass.Lays.more (h : p.Lays scope is own) {more : List (CodeLine × Origin)}
    (hscope : p'.globalScope = p.globalScope)
    (hinitializers : p'.allocation.initializers = p.allocation.initializers)
    (hinit : "Init" ∈ p'.functions.map Prod.fst ↔ "Init" ∈ p.functions.map Prod.fst)
    (hlines : p'.emitter.lines = p.emitter.lines ++ more) : p'.Lays scope is (own ++ more) := by
  refine ⟨hscope.trans h.globalScope, hinitializers.trans h.initializers, ?_⟩
  rw [hinit, hlines]
  refine h.lines.imp ?_ ?_
  · rintro ⟨hnone, rfl⟩
    exact ⟨hnone, rfl⟩
  · rintro ⟨hsome, blocks, hblocks, hlaid⟩
    exact ⟨hsome, blocks, hblocks, hlaid.append more⟩

/-- A function gives its label for the line that opens it, and `Init` the initial values as well. -/
theorem Pass.Lays.openFunction (h : p.Lays scope is own) {name : String} {location : Location}
    (hp : p.openFunction name location = .ok p') :
    p'.Lays scope is (own ++ [(.label name, p.emitter.origin)]) := by
  have hscope := (openFunction_extends location hp).globalScope
  unfold Pass.openFunction at hp
  cases hfirst : p.functions.lookup name with
  | some first => simp [hfirst, fail] at hp
  | none =>
  have hnew : name ∉ p.functions.map Prod.fst := by
    intro hname
    obtain ⟨e, he, rfl⟩ := List.mem_map.mp hname
    simpa using List.lookup_eq_none_iff.mp hfirst e he
  simp only [hfirst] at hp
  by_cases hinit : name = "Init"
  · subst hinit
    rw [if_pos rfl] at hp
    obtain ⟨q, hq, hp⟩ := bind_eq_ok.mp hp
    obtain rfl := Except.ok.inj hp
    obtain ⟨hkeeps, -⟩ := setGlobals_keeps hq
    obtain ⟨-, blocks, hblocks, hlines⟩ := foldlM_setGlobal hq
    -- The function is new, so that the initial values have not been set yet.
    obtain ⟨-, hown⟩ := h.lines.resolve_right (fun hinit => hnew hinit.1)
    refine ⟨hscope.trans h.globalScope, ?_, .inr ⟨?_, blocks, ?_, ?_⟩⟩
    · change q.allocation.initializers = is
      rw [hkeeps.allocation]
      exact h.initializers
    · change "Init" ∈ q.functions.map Prod.fst
      rw [hkeeps.functions]
      simp [Pass.emit]
    · rw [← h.initializers, ← h.globalScope]
      exact hblocks
    · change Laid blocks.flatten _ q.emitter.lines
      rw [hlines, ← hown]
      have hlaid : Laid blocks.flatten (p.emitter.lines ++ [(.label "Init", p.emitter.origin)])
        (p.emitter.lines ++ (.label "Init", p.emitter.origin) :: (blocks.flatten ++ [])) := .written rfl
      simpa [Pass.emit, Emitter.emit] using hlaid
  · rw [if_neg hinit] at hp
    obtain rfl := Except.ok.inj hp
    refine h.more hscope rfl ?_ rfl
    simp [Pass.emit, Ne.symm hinit, Pass.moveTo]

/-- A line gives code for itself. -/
theorem Pass.Lays.line (h : p.Lays scope is own) {path : Path} {line : SourceLine}
    (hp : p.line f path line = .ok p') :
    ∃ code : Code, p'.Lays scope is (own ++ code.map fun l => (l, ⟨path, line.number⟩)) := by
  have hscope : p'.globalScope = p.globalScope := (line_extends hp).globalScope
  have hmoved : (p.moveTo path line.number).Lays scope is own :=
    ⟨h.globalScope, h.initializers, h.lines⟩
  have hp := atLine_eq_ok.mp hp
  cases hfunction : (p.moveTo path line.number).function with
  | some function =>
    simp only [hfunction] at hp
    have hwrites := Writes.innerLine hp
    obtain ⟨code, hcode⟩ := hwrites.lines
    exact ⟨code, hmoved.more hscope hwrites.initializers (by rw [hwrites.functions]) hcode⟩
  | none =>
    simp only [hfunction] at hp
    rcases topLine_kind hp with ⟨rfl, -⟩ | ⟨name, -, hopen⟩
    · exact ⟨[], by simpa using hmoved⟩
    · exact ⟨[.label name], hmoved.openFunction hopen⟩

/-- Some lines are those of a file that give them, in its order. -/
structure SourceFile.InOrder (current : List String) (f : SourceFile)
    (own : List (CodeLine × Origin)) : Prop where
  authored : ∀ l ∈ own, f.Authored current l.2
  pairwise : own.Pairwise fun l l' => l.2.line ≤ l'.2.line

theorem Pass.Lays.lines_from (h : p.Lays scope is own) {path : Path} {ls : List SourceLine}
    (hls : ls.Pairwise fun l l' => l.number < l'.number)
    (hp : ls.foldlM (fun p l => p.line f path l) p = .ok p') :
    ∃ more : List (CodeLine × Origin), p'.Lays scope is (own ++ more) ∧
      (∀ l ∈ more, ∃ line ∈ ls, l.2 = ⟨path, line.number⟩) ∧
      more.Pairwise fun l l' => l.2.line ≤ l'.2.line := by
  induction ls generalizing p own with
  | nil =>
    obtain rfl := Except.ok.inj hp
    exact ⟨[], by simpa using h, by simp, .nil⟩
  | cons line ls ih =>
    rw [List.foldlM_cons] at hp
    obtain ⟨q, hq, hp⟩ := bind_eq_ok.mp hp
    obtain ⟨hfirst, hls⟩ := List.pairwise_cons.mp hls
    obtain ⟨code, hcode⟩ := h.line hq
    obtain ⟨more, hmore, horigins, hpairwise⟩ := ih hcode hls hp
    refine ⟨_ ++ more, by rwa [← List.append_assoc], ?_, ?_⟩
    · intro l hl
      rcases List.mem_append.mp hl with hl | hl
      · obtain ⟨_, -, rfl⟩ := List.mem_map.mp hl
        exact ⟨line, List.mem_cons_self, rfl⟩
      · obtain ⟨line', hline', ho⟩ := horigins l hl
        exact ⟨line', List.mem_cons_of_mem _ hline', ho⟩
    · refine List.pairwise_append.mpr ⟨?_, hpairwise, ?_⟩
      · rw [List.pairwise_map]
        exact List.pairwise_of_forall fun _ _ => Int.le_refl _
      · intro l hl l' hl'
        obtain ⟨_, -, rfl⟩ := List.mem_map.mp hl
        obtain ⟨line', hline', ho⟩ := horigins l' hl'
        have hlt := hfirst line' hline'
        rw [ho]
        change (line.number : Int) ≤ line'.number
        omega

theorem Pass.Lays.file (h : p.Lays scope is own) (hp : p.file current f = .ok p') :
    ∃ more, p'.Lays scope is (own ++ more) ∧ f.InOrder current more := by
  obtain ⟨path, hpath, hlines, -⟩ := Pass.file_eq_ok hp
  obtain ⟨more, hmore, horigins, hpairwise⟩ := h.lines_from (sourceLines_pairwise f.text) hlines
  refine ⟨more, hmore, fun l hl => ?_, hpairwise⟩
  obtain ⟨line, hline, ho⟩ := horigins l hl
  exact SourceFile.Holds.authored ⟨line, hline, by rw [ho, canonical_eq_ok hpath]⟩

theorem Pass.Lays.files (h : p.Lays scope is own) {files : List SourceFile}
    (hp : files.foldlM (Pass.file current) p = .ok p') :
    ∃ runs, p'.Lays scope is (own ++ runs.flatten) ∧
      List.Forall₂ (SourceFile.InOrder current) files runs := by
  induction files generalizing p own with
  | nil =>
    obtain rfl := Except.ok.inj hp
    exact ⟨[], by simpa using h, .nil⟩
  | cons f files ih =>
    rw [List.foldlM_cons] at hp
    obtain ⟨q, hq, hp⟩ := bind_eq_ok.mp hp
    obtain ⟨more, hmore, horder⟩ := h.file hq
    obtain ⟨runs, hruns, horders⟩ := ih hmore hp
    exact ⟨more :: runs, by rwa [List.flatten_cons, ← List.append_assoc], .cons horder horders⟩

end

/-- What is written before the first line: nothing, or a function that sets the initial values. -/
theorem Pass.addInit_lays {constants : NameTable Number} {a : Allocation} {p : Pass}
    (hp : Pass.addInit { constants, allocation := a } = .ok p) :
    p.Lays (Pass.globalScope { constants, allocation := a }) a.initializers [] ∧
      p.function = none ∧ p.blocks = [] ∧
      (a.initializers = [] ∨ "Init" ∈ a.declared ∨ "Init" ∈ p.functions.map Prod.fst) := by
  have hnothing : Pass.Lays (Pass.globalScope { constants, allocation := a }) a.initializers
      { constants, allocation := a } [] := ⟨rfl, rfl, .inl ⟨by simp, rfl⟩⟩
  unfold Pass.addInit at hp
  split at hp
  · rename_i hnone
    obtain rfl := Except.ok.inj hp
    exact ⟨hnothing, rfl, rfl, .inl hnone⟩
  · split at hp
    · rename_i hdeclared
      obtain rfl := Except.ok.inj hp
      exact ⟨hnothing, rfl, rfl, .inr (.inl (by simpa using hdeclared))⟩
    · obtain ⟨q, hq, hp⟩ := bind_eq_ok.mp hp
      obtain rfl := Except.ok.inj hp
      obtain ⟨hkeeps, hopen⟩ := setGlobals_keeps hq
      obtain ⟨hscope, blocks, hblocks, hlines⟩ := foldlM_setGlobal hq
      have hinit : "Init" ∈ q.functions.map Prod.fst := by
        rw [hkeeps.functions]
        simp
      refine ⟨⟨hscope, ?_, .inr ⟨hinit, blocks, hblocks, ?_⟩⟩, hkeeps.function, hopen,
        .inr (.inr hinit)⟩
      · change q.allocation.initializers = a.initializers
        rw [hkeeps.allocation]
        rfl
      · change Laid blocks.flatten [] (q.emitter.lines ++ _)
        rw [hlines]
        exact .added

/-- A program with initial values has an `Init`, which is one of its functions or put in front. -/
theorem init_mem_functions {current : List String} {constants : NameTable Number} {base : Int}
    {files : List SourceFile} {a : Allocation} {p q : Pass}
    (ha : files.foldlM (Allocation.addFile current) { next := base } = .ok a)
    (hp : Pass.addInit { constants, allocation := a } = .ok p)
    (hq : files.foldlM (Pass.file current) p = .ok q) (hsome : a.initializers ≠ []) :
    "Init" ∈ q.functions.map Prod.fst := by
  obtain ⟨-, hfunction, hblocks, hinit⟩ := Pass.addInit_lays hp
  obtain ⟨-, visits, -, -, -, -, hdeclares⟩ := Aligned.files hfunction hblocks ha hq
  rw [hdeclares.functions, List.mem_append]
  rcases hinit with hnone | hdeclared | hadded
  · exact absurd hnone hsome
  · rw [hdeclares.declared] at hdeclared
    exact .inr hdeclared
  · exact .inl hadded

theorem origins_codeText (ls : List (CodeLine × Origin)) :
    (codeText ls).origins = ls.map Prod.snd := by
  simp [codeText, Traced.ofLines, Function.comp_def]

/-- No line of the assembly holds a break, so that its text has as many lines as were written. -/
theorem compile_aligned {options : Options} {files : List SourceFile} {c : Compiled}
    (h : compile current options files = .ok c) : c.assembly.Aligned := by
  obtain ⟨functions, hfunctions, -, hcode⟩ := compile_eq_code h
  have hnamed : ∀ l ∈ c.lines.map Prod.fst, l.named = true := by
    rw [hcode]
    exact ofFunctions_named (readFunctions_named hfunctions)
  unfold Traced.Aligned Traced.lines Compiled.assembly
  rw [lines_codeText hnamed, origins_codeText]
  simp

/-- The text of the assembly has one origin for each of its lines, a line of a file that is neither
blank nor an include. The lines are those of the files, file by file and in the order of each, with
the code of the initial values among them, each written for the line that declares its variable. -/
theorem compile_lines_ordered {current : List String} {options : Options}
    {files : List SourceFile} {c : Compiled} (h : compile current options files = .ok c) :
    c.assembly.Aligned ∧ (∀ o ∈ c.assembly.origins, ∃ f ∈ files, f.Authored current o) ∧
      ∃ (a : Allocation) (blocks runs : List (List (CodeLine × Origin))),
        files.foldlM (Allocation.addFile current) { next := options.zeroPageBase } = .ok a ∧
        (∀ i ∈ a.initializers, i.DeclaredIn current files) ∧
        List.Forall₂ (Initializer.SetBy
          (Pass.globalScope { constants := options.constants, allocation := a }))
          a.initializers blocks ∧
        List.Forall₂ (SourceFile.InOrder current) files runs ∧
        Laid blocks.flatten runs.flatten c.lines := by
  refine ⟨compile_aligned h, ?_, ?_⟩
  · intro o ho
    rw [Compiled.assembly, origins_codeText] at ho
    obtain ⟨l, hl, rfl⟩ := List.mem_map.mp ho
    obtain ⟨f, hf, hholds⟩ := compile_attributed h l hl
    exact ⟨f, hf, hholds.authored⟩
  · obtain ⟨a, ha, h⟩ := bind_eq_ok.mp h
    obtain ⟨p, hp, h⟩ := bind_eq_ok.mp h
    obtain ⟨q, hq, h⟩ := bind_eq_ok.mp h
    obtain rfl := Except.ok.inj h
    obtain ⟨runs, hruns, horders⟩ := (Pass.addInit_lays hp).1.files hq
    have hdeclared := Allocation.addFiles_declaredIn rfl ha
    rcases hruns.lines with ⟨hnone, hlines⟩ | ⟨-, blocks, hblocks, hlaid⟩
    · have hempty : a.initializers = [] := by
        by_contra hsome
        exact hnone (init_mem_functions ha hp hq hsome)
      refine ⟨a, [], runs, ha, hdeclared, by rw [hempty]; exact .nil, horders, ?_⟩
      rw [List.nil_append] at hlines
      rw [hlines]
      exact .plain rfl
    · exact ⟨a, blocks, runs, ha, hdeclared, hblocks, horders, hlaid⟩

/-- Two files with a value each. The second one has an `Init`, which starts with both. -/
def tickSource : SourceFile := .ofText (.ofText "tick.c")
  "unsigned char ticks = 3;
void Update() \x7b
  ticks--; // at every frame
\x7d"

def startSource : SourceFile := .ofText (.ofText "start.c")
  "#include \"tick.h\"
unsigned char level = ticks;

void Init() \x7b
  level++;
\x7d"

theorem tick_start_ordered : ∃ (c : Compiled) (a : Allocation)
    (blocks runs : List (List (CodeLine × Origin))),
    compile ["w"] {} [tickSource, startSource] = .ok c ∧
      c.assembly.Aligned ∧ a.initializers.length = 2 ∧
      (∀ i ∈ a.initializers, i.DeclaredIn ["w"] [tickSource, startSource]) ∧
      List.Forall₂ (SourceFile.InOrder ["w"]) [tickSource, startSource] runs ∧
      Laid blocks.flatten runs.flatten c.lines ∧
      c.lines.map (fun l => (l.2.file.toText, l.2.line)) =
        [("/w/tick.c", 2), ("/w/tick.c", 3), ("/w/tick.c", 4), ("/w/tick.c", 4),
          ("/w/start.c", 4), ("/w/tick.c", 1), ("/w/tick.c", 1), ("/w/start.c", 2),
          ("/w/start.c", 2), ("/w/start.c", 5), ("/w/start.c", 6), ("/w/start.c", 6)] := by
  have hlines : ((compile ["w"] {} [tickSource, startSource]).toOption.map fun c =>
      c.lines.map (fun l => (l.2.file.toText, l.2.line))) = some
        [("/w/tick.c", 2), ("/w/tick.c", 3), ("/w/tick.c", 4), ("/w/tick.c", 4),
          ("/w/start.c", 4), ("/w/tick.c", 1), ("/w/tick.c", 1), ("/w/start.c", 2),
          ("/w/start.c", 2), ("/w/start.c", 5), ("/w/start.c", 6), ("/w/start.c", 6)] := by
    decide +kernel
  have htwo : (([tickSource, startSource].foldlM (Allocation.addFile ["w"]) {}).toOption.map
      fun a => a.initializers.length) = some 2 := by
    decide +kernel
  obtain ⟨c, hc, hlines⟩ := Option.map_eq_some_iff.mp hlines
  obtain ⟨b, hb, htwo⟩ := Option.map_eq_some_iff.mp htwo
  obtain ⟨haligned, -, a, blocks, runs, ha, hdeclared, -, hruns, hlaid⟩ :=
    compile_lines_ordered (eq_ok_of_toOption hc)
  obtain rfl : b = a := Except.ok.inj ((eq_ok_of_toOption hb).symm.trans ha)
  exact ⟨c, b, blocks, runs, eq_ok_of_toOption hc, haligned, htwo, hdeclared, hruns, hlaid, hlines⟩

end Toolchain6502.C
