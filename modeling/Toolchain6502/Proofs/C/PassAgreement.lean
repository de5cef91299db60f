import Toolchain6502.Proofs.C.Attribution
import Toolchain6502.Proofs.C.FlowLabels
import Toolchain6502.Proofs.C.InitialValues
import Toolchain6502.Proofs.C.Passes

namespace Toolchain6502.C

open Files Source

/-- A generated label ends in a digit. -/
theorem not_mem_generatedLabels {name : String} {c : Char}
    (hlast : name.toList.getLast? = some c) (hc : c.isDigit = false) (fs : List Function) :
    name ∉ generatedLabels fs := by
  intro hmem
  obtain ⟨stem, -, n, rfl⟩ := (bodiesOf_generated fs).exists_label hmem
  rw [generatedLabel_toList, List.getLast?_append_of_ne_nil _ Nat.toDigits_ne_nil] at hlast
  have hdigit := Nat.isDigit_of_mem_toDigits (by decide) (by decide) (List.mem_of_getLast? hlast)
  simp [hc] at hdigit

theorem map_begun {values : Flow} {fs : List Function} (h : "Init" ∉ fs.map Function.name) :
    fs.map (Function.begun values) = fs := by
  refine (List.map_congr_left fun f hf => ?_).trans (List.map_id fs)
  have hother : f.name ≠ "Init" := fun hinit => h (hinit ▸ List.mem_map_of_mem hf)
  exact if_neg hother

theorem ofFunctions_begun_skip (fs : List Function) :
    Progress.ofFunctions (fs.map (Function.begun .skip)) = .ofFunctions fs := by
  have hcode (f : Function) : (f.begun .skip).code = f.code := by
    have hprepends : Flow.Prepends (.before .skip (some f.name)) f.body f.body := by
      rw [Flow.before, ite_self]
      exact Flow.prepends_skip_left f.body
    exact (funext (Function.begun_code hprepends)).symm
  simp only [Progress.ofFunctions, List.foldl_map, hcode]

/-- The code of some functions, with statements at one more place: right behind the only label
`Init`. -/
def BeginsInit (statements : List Statement) (functions : List Function) (code : Code) : Prop :=
  ∃ earlier body later, functions = earlier ++ ⟨"Init", body⟩ :: later ∧
    code = (Progress.ofFunctions
      (earlier ++ ⟨"Init", .seq (.ofStatements statements) body⟩ :: later)).code ∧
    (∃ rest, code = (Progress.ofFunctions earlier).code ++ .label "Init" ::
      ((Flow.ofStatements statements).code "Init" (Progress.ofFunctions earlier).labels).1 ++
        rest) ∧
    code.count (.label "Init") = 1

theorem beginsInit_of_mem {functions : List Function} (statements : List Statement)
    (hnodup : (functions.map Function.name).Nodup)
    (hmem : "Init" ∈ functions.map Function.name) :
    BeginsInit statements functions (Progress.ofFunctions
      (functions.map (Function.begun (.ofStatements statements)))).code := by
  obtain ⟨⟨_, body⟩, hbody, rfl⟩ := List.mem_map.mp hmem
  obtain ⟨earlier, later, rfl⟩ := List.append_of_mem hbody
  have hapart : "Init" ∉ earlier.map Function.name ∧ "Init" ∉ later.map Function.name := by
    simp only [List.map_append, List.map_cons, List.nodup_append, List.nodup_cons] at hnodup
    exact ⟨fun hin => hnodup.2.2 _ hin _ List.mem_cons_self rfl, hnodup.2.1.1⟩
  have hmap : (earlier ++ ⟨"Init", body⟩ :: later).map
      (Function.begun (.ofStatements statements)) =
      earlier ++ ⟨"Init", .seq (.ofStatements statements) body⟩ :: later := by
    rw [List.map_append, List.map_cons, map_begun hapart.1, map_begun hapart.2]
    rfl
  refine ⟨earlier, body, later, rfl, by rw [hmap], ?_, ?_⟩
  · obtain ⟨after, hafter⟩ := Progress.ofFunctions_append earlier
      ⟨"Init", .seq (.ofStatements statements) body⟩ later
    rw [hmap, hafter]
    simp only [Function.code, Flow.code, List.append_assoc, List.cons_append, List.nil_append]
    exact ⟨_, rfl⟩
  · rw [hmap, count_label, (labelsOf_ofFunctions _).count_eq, List.count_append,
      List.count_eq_zero.mpr (not_mem_generatedLabels (c := 't') rfl rfl _), List.map_append,
      List.map_cons, List.count_append, List.count_cons, List.count_eq_zero.mpr hapart.1,
      List.count_eq_zero.mpr hapart.2]
    rfl

/-- Whether some code is that of the functions as they are written, with the initial values of the
globals set by `Init` alone. -/
def InitializedOnce (constants : NameTable Number) (a : Allocation) (written : List Function)
    (code : Code) : Prop :=
  (a.initializers = [] → code = (Progress.ofFunctions written).code) ∧
  (a.initializers ≠ [] → ∃ statements,
    a.initializers.mapM (Initializer.read (Pass.globalScope { constants, allocation := a })) =
      .ok statements ∧
    BeginsInit statements (a.leadingInit ++ written) code)

theorem Began.initializedOnce {constants : NameTable Number} {a : Allocation} {r w : Reading}
    (h : Began a.leadingInit { constants, allocation := a } r w)
    (hnodup : (r.functions.map Function.name).Nodup)
    (hdeclared : a.declared.contains "Init" = true → "Init" ∈ w.functions.map Function.name) :
    InitializedOnce constants a w.functions (Progress.ofFunctions r.functions).code := by
  rw [h.names] at hnodup
  constructor
  · intro hnone
    have hlead : a.leadingInit = [] := by simp [Allocation.leadingInit, hnone]
    have hflow : Reading.initialFlow { constants, allocation := a } = .skip := by
      simp [Reading.initialFlow, Reading.initialStatements, hnone, Flow.ofStatements,
        Except.toOption]
    rw [h.progress, hlead, hflow, List.nil_append, ofFunctions_begun_skip]
  · intro hsome
    have hinit : "Init" ∈ (a.leadingInit ++ w.functions).map Function.name := by
      rw [List.map_append, List.mem_append]
      by_cases hwritten : a.declared.contains "Init" = true
      · exact .inr (hdeclared hwritten)
      · refine .inl ?_
        have hlead : a.leadingInit = [⟨"Init", .skip⟩] := by
          simpa [Allocation.leadingInit, hsome] using hwritten
        simp [hlead]
    obtain ⟨statements, hstatements⟩ := h.known (.inl (h.names ▸ hinit))
    have hflow : Reading.initialFlow { constants, allocation := a } = .ofStatements statements := by
      simp [Reading.initialFlow, hstatements, Except.toOption]
    refine ⟨statements, hstatements, ?_⟩
    rw [h.progress, hflow]
    exact beginsInit_of_mem statements hnodup hinit

/-- Both passes go over all lines of all files. Before each line the depth of the first one is told by
the blocks that are open in the second one. So the globals that are placed are those that are
declared outside functions, the functions are the same in both, and the initial values are set once,
in the order of the declarations. -/
theorem compile_passes_agree {current : List String} {options : Options} {files : List SourceFile}
    {c : Compiled} (h : compile current options files = .ok c) :
    ∃ (allocation : Allocation) (start : Pass) (depths : List (Visit Nat))
      (visits : List (Visit Pass)) (placed : List (Variable × Option String))
      (written : List Function),
      files.foldlM (Allocation.addFile current) { next := options.zeroPageBase } = .ok allocation ∧
      Pass.addInit { constants := options.constants, allocation } = .ok start ∧
      Allocation.visits current { next := options.zeroPageBase } files = .ok depths ∧
      Pass.visits current start files = .ok visits ∧
      visits.map (fun v => (v.file, v.line)) =
        files.flatMap (fun f => (sourceLines f.text).map fun l => (f, l)) ∧
      List.Forall₂ Visit.Agree depths visits ∧
      allocation.globals = placed.map Prod.fst ∧
      placed.map (fun e => ((⟨e.1.name, e.2⟩ : Declaration), e.1.location)) =
        visits.filterMap Visit.global? ∧
      allocation.initializers.map (fun i => (i.target, i.expression)) =
        placed.filterMap (fun e => e.2.map (e.1, ·)) ∧
      allocation.declared = visits.filterMap Visit.function? ∧
      c.functions = allocation.leadingInit.map Function.name ++ allocation.declared ∧
      writtenFunctions current options files = .ok written ∧
      InitializedOnce options.constants allocation written (c.lines.map Prod.fst) := by
  have hnodup := compile_functions_nodup h
  obtain ⟨allocation, start, q, r, r', hallocation, hstart, hq, rfl, hr, hr', houtside, hend⟩ :=
    compile_stages h
  have hblocks : start.blocks = [] :=
    (congrArg Progress.blocks houtside.progress).trans (Progress.ofFunctions_open _).1
  obtain ⟨depths, visits, hdepths, hvisits, hagree, hcovers, hdeclares⟩ :=
    Aligned.files houtside.compiled hblocks hallocation hq
  obtain ⟨placed, hplaced, hglobals, hinitial⟩ := hdeclares.globals
  have hlead := Began.addInit hr
  obtain ⟨w, hw, hbegan⟩ := foldlM_simulates (fun _ _ _ _ h hr => h.file hr) hlead hr'
  have hdeclared : allocation.declared = visits.filterMap Visit.function? := hdeclares.declared
  have hfunctions : q.functions.map Prod.fst =
      allocation.leadingInit.map Function.name ++ allocation.declared := by
    rw [hdeclares.functions, houtside.names, hlead.names, hdeclared, List.append_nil]
  have hwritten : w.functions.map Function.name = allocation.declared := by
    have hnames := hbegan.names
    rw [← hend.names, hfunctions, List.map_append] at hnames
    exact (List.append_cancel_left hnames).symm
  have hcode : q.emitter.lines.map Prod.fst = (Progress.ofFunctions r'.functions).code :=
    congrArg Progress.code hend.progress
  refine ⟨allocation, start, depths, visits, placed, w.functions, hallocation, hstart, hdepths,
    hvisits, hcovers, hagree, hglobals, hplaced, hinitial, hdeclared, hfunctions, ?_, ?_⟩
  · simp [writtenFunctions, hallocation, hw]
  · rw [hcode]
    refine hbegan.initializedOnce (hend.names ▸ hnodup) fun hinit => ?_
    rw [hwritten]
    simpa using hinit

/-- Two files, with an `Init` in the second one that begins with values of both. -/
def playerSource : SourceFile := .ofText (.ofText "player")
  "unsigned char lives = 3;
void Update() \x7b
  if (lives > 0) \x7b
    lives--;
  \x7d
\x7d"

def levelSource : SourceFile := .ofText (.ofText "level")
  "unsigned char level = lives;
void Init() \x7b
  level++;
\x7d"

theorem player_level_agree : ∃ (c : Compiled) (depths : List (Visit Nat))
    (visits : List (Visit Pass)) (written : List Function),
    compile [] {} [playerSource, levelSource] = .ok c ∧ c.functions = ["Update", "Init"] ∧
      depths.map Visit.state = [0, 0, 1, 2, 2, 1, 0, 0, 1, 1] ∧
      List.Forall₂ Visit.Agree depths visits ∧
      BeginsInit [.assign 0x40 (.term (.immediate (.whole 3))), .assign 0x41 (.term (.byte 0x40))]
        written (c.lines.map Prod.fst) := by
  obtain ⟨c, hcompile⟩ : ∃ c, compile [] {} [playerSource, levelSource] = .ok c :=
    exists_eq_ok_of_isSome (by decide +kernel)
  obtain ⟨a, start, depths, visits, placed, written, ha, -, hdepths, -, -, hagree, -, -, -, -,
    hfunctions, -, -, honce⟩ := compile_passes_agree hcompile
  have hcounted : ((Allocation.visits [] {} [playerSource, levelSource]).toOption.map fun vs =>
      vs.map Visit.state) = some [0, 0, 1, 2, 2, 1, 0, 0, 1, 1] := by
    decide +kernel
  have hplaced : (([playerSource, levelSource].foldlM (Allocation.addFile []) {}).toOption.map
      fun a => (a.leadingInit.map Function.name ++ a.declared, a.initializers.length,
        (a.initializers.mapM
          (Initializer.read (Pass.globalScope { constants := [], allocation := a }))).toOption)) =
      some (["Update", "Init"], 2, some [.assign 0x40 (.term (.immediate (.whole 3))),
        .assign 0x41 (.term (.byte 0x40))]) := by
    decide +kernel
  obtain ⟨vs, hvs, hcounted⟩ := Option.map_eq_some_iff.mp hcounted
  obtain rfl : vs = depths := Except.ok.inj ((eq_ok_of_toOption hvs).symm.trans hdepths)
  obtain ⟨b, hb, hplaced⟩ := Option.map_eq_some_iff.mp hplaced
  obtain rfl : b = a := Except.ok.inj ((eq_ok_of_toOption hb).symm.trans ha)
  simp only [Prod.mk.injEq] at hplaced
  obtain ⟨hnames, htwo, hread⟩ := hplaced
  obtain ⟨statements, hstatements, hbegins⟩ := honce fun hnone => by simp [hnone] at htwo
  obtain rfl := Except.ok.inj ((eq_ok_of_toOption hread).symm.trans hstatements)
  exact ⟨c, vs, visits, _, hcompile, hfunctions.trans hnames, hcounted, hagree, hbegins⟩

end Toolchain6502.C
