import Mathlib.Data.List.Forall2
import Mathlib.Tactic.SplitIfs
import Toolchain6502.Proofs.C.Nesting

namespace Toolchain6502.C

open Files Source Text

/-- One line for the pass that places globals, with the depth of blocks before it and after it. -/
def Allocation.line (current : List String) (file : SourceFile) :
    Nat × Allocation → SourceLine → Except Failure (Nat × Allocation)
  | (0, a), line =>
    atLine (file.location line) line.source
      (a.topLine current file.path line (file.location line))
  | (depth + 1, a), line => .ok (depthAfter (depth + 1) line.text, a)

theorem Allocation.addLines_eq_foldlM (current : List String) (file : SourceFile) (depth : Nat)
    (a : Allocation) (ls : List SourceLine) :
    addLines current file depth a ls =
      (ls.foldlM (line current file) (depth, a)).map Prod.snd := by
  induction ls generalizing depth a with
  | nil => cases depth <;> rfl
  | cons l rest ih =>
    rw [List.foldlM_cons]
    cases depth with
    | succ depth => exact ih _ a
    | zero =>
      rw [addLines, line]
      cases atLine (file.location l) l.source
        (a.topLine current file.path l (file.location l)) with
      | error e => rfl
      | ok r => exact ih r.1 r.2

/-- The steps of a fold, each with the state in which it is taken. -/
def stepsOf (f : σ → α → Except ε σ) : σ → List α → Except ε (List (σ × α))
  | _, [] => .ok []
  | s, a :: rest => do
    let s' ← f s a
    return (s, a) :: (← stepsOf f s' rest)

/-- A line of a file, with the state in which it is met. -/
structure Visit (σ : Type) where
  file : SourceFile
  line : SourceLine
  state : σ

/-- The lines of some files, with the depth that has been counted before each. -/
def Allocation.visits (current : List String) :
    Allocation → List SourceFile → Except Failure (List (Visit Nat))
  | _, [] => .ok []
  | a, f :: rest => do
    let steps ← stepsOf (line current f) (0, a) (sourceLines f.text)
    let later ← visits current (← a.addFile current f) rest
    return steps.map (fun s => ⟨f, s.2, s.1.1⟩) ++ later

def Pass.visits (current : List String) :
    Pass → List SourceFile → Except Failure (List (Visit Pass))
  | _, [] => .ok []
  | p, f :: rest => do
    let path ← canonical current f.path
    let steps ← stepsOf (fun p l => p.line f path l) p (sourceLines f.text)
    let later ← visits current (← p.file current f) rest
    return steps.map (fun s => ⟨f, s.2, s.1⟩) ++ later

namespace Visit

def global? (v : Visit Pass) : Option (Declaration × Location) :=
  if v.state.function.isNone then
    (globalAt? v.line.text).map fun d => (d, v.file.location v.line)
  else none

def function? (v : Visit Pass) : Option String :=
  if v.state.function.isNone then functionAt? v.line.text else none

end Visit

/-- The depth that the first pass has counted is told by what the second one has open. -/
structure Aligned (depth : Nat) (p : Pass) : Prop where
  outside : depth = 0 ↔ p.function = none
  inside : p.function ≠ none → depth = 1 + p.blocks.length
  closed : p.function = none → p.blocks = []

namespace Aligned

variable {depth : Nat} {p p' : Pass}

theorem of_outside (hfunction : p.function = none) (hblocks : p.blocks = []) : Aligned 0 p :=
  ⟨by simp [hfunction], fun hinside => absurd hfunction hinside, fun _ => hblocks⟩

theorem of_inside (hfunction : p.function ≠ none) (hdepth : depth = 1 + p.blocks.length) :
    Aligned depth p := by
  refine ⟨?_, fun _ => hdepth, fun hnone => absurd hnone hfunction⟩
  simp only [hfunction, iff_false]
  omega

/-- A line inside a function moves the depth as it moves the blocks. -/
theorem nests {text : List Char} (h : Aligned depth p) (hinside : p.function ≠ none)
    (hnests : p.Nests text p') : Aligned (Allocation.depthAfter depth text) p' := by
  have hdepth := h.inside hinside
  -- The four cases are told apart by the text, as they are where the depth is counted.
  cases hnests with
  | stays hend hfunction hblocks =>
    have hbrace : text ≠ ['\x7d'] := by
      rintro rfl
      simp at hend
    simp only [Allocation.depthAfter, hbrace, if_false, hend, Option.some.injEq]
    rw [if_neg (by decide)]
    exact of_inside (hfunction ▸ hinside) (hblocks ▸ hdepth)
  | opens hend hfunction hblocks =>
    have hbrace : text ≠ ['\x7d'] := by
      rintro rfl
      simp at hend
    simp only [Allocation.depthAfter, hbrace, if_false, hend, if_true]
    refine of_inside (hfunction ▸ hinside) ?_
    rw [hblocks, List.length_cons]
    omega
  | closes htext hfunction hblocks =>
    simp only [Allocation.depthAfter, htext, if_true]
    refine of_inside (hfunction ▸ hinside) ?_
    rw [hblocks, List.length_cons] at hdepth
    omega
  | ends htext hfunction hblocks hnone =>
    have hone : depth = 1 := by simpa [hblocks] using hdepth
    simp only [Allocation.depthAfter, htext, if_true, hone]
    exact of_outside hfunction hnone

end Aligned

/-- What some lines declare: the variables that the first pass places, with their initial values,
and the functions that both passes note. -/
structure Declares (vs : List (Visit Pass)) (a a' : Allocation) (p p' : Pass) : Prop where
  globals : ∃ placed : List (Variable × Option String),
    placed.map (fun e => ((⟨e.1.name, e.2⟩ : Declaration), e.1.location)) =
      vs.filterMap Visit.global? ∧
    a'.globals = a.globals ++ placed.map Prod.fst ∧
    a'.initializers.map (fun i => (i.target, i.expression)) =
      a.initializers.map (fun i => (i.target, i.expression)) ++
        placed.filterMap fun e => e.2.map (e.1, ·)
  declared : a'.declared = a.declared ++ vs.filterMap Visit.function?
  functions : p'.functions.map Prod.fst =
    p.functions.map Prod.fst ++ vs.filterMap Visit.function?

namespace Declares

variable {vs ws : List (Visit Pass)} {a a' a'' : Allocation} {p p' p'' : Pass}

theorem nothing (hglobals : vs.filterMap Visit.global? = [])
    (hfunctions : vs.filterMap Visit.function? = []) (hsame : p'.functions = p.functions) :
    Declares vs a a p p' := by
  refine ⟨⟨[], ?_, ?_, ?_⟩, ?_, ?_⟩ <;> simp [hglobals, hfunctions, hsame]

theorem trans (h : Declares vs a a' p p') (h' : Declares ws a' a'' p' p'') :
    Declares (vs ++ ws) a a'' p p'' := by
  obtain ⟨placed, hplaced, hglobals, hinitial⟩ := h.globals
  obtain ⟨placed', hplaced', hglobals', hinitial'⟩ := h'.globals
  refine ⟨⟨placed ++ placed', ?_, ?_, ?_⟩, ?_, ?_⟩
  · rw [List.map_append, List.filterMap_append, hplaced, hplaced']
  · rw [hglobals', hglobals, List.map_append, List.append_assoc]
  · rw [hinitial', hinitial, List.filterMap_append, List.append_assoc]
  · rw [h'.declared, h.declared, List.filterMap_append, List.append_assoc]
  · rw [h'.functions, h.functions, List.filterMap_append, List.append_assoc]

end Declares

theorem Pass.setGlobals_keeps {p p' : Pass} (h : p.setGlobals = .ok p') : p.Keeps p' ∧
    p'.blocks = p.blocks := by
  refine foldlM_preserves (P := fun q => p.Keeps q ∧ q.blocks = p.blocks) ?_
    ⟨⟨rfl, rfl, rfl, rfl, rfl⟩, rfl⟩ h
  rintro q i q' - ⟨hq, hblocks⟩ hset
  obtain ⟨value, -, hset⟩ := bind_eq_ok.mp hset
  obtain rfl := generate_eq_ok hset
  exact ⟨⟨hq.constants, hq.allocation, hq.locals, hq.function, hq.functions⟩, hblocks⟩

theorem Pass.openFunction_keeps {p p' : Pass} {name : String} {location : Location}
    (h : p.openFunction name location = .ok p') :
    p'.function = some name ∧ p'.blocks = p.blocks ∧
      p'.functions = p.functions ++ [(name, location)] := by
  unfold openFunction at h
  cases hfirst : p.functions.lookup name with
  | some first => simp [hfirst, fail] at h
  | none =>
  simp only [hfirst] at h
  split at h
  · obtain ⟨q, hq, h⟩ := bind_eq_ok.mp h
    obtain ⟨hkeeps, hblocks⟩ := setGlobals_keeps hq
    obtain rfl := Except.ok.inj h
    exact ⟨rfl, hblocks, hkeeps.functions⟩
  · obtain rfl := Except.ok.inj h
    exact ⟨rfl, rfl, rfl⟩

section

variable {current : List String} {file : SourceFile} {path : Path} {line : SourceLine}
  {depth depth' : Nat} {a a' : Allocation} {p p' : Pass}

theorem Allocation.addGlobal_declares {d : Declaration}
    (houtside : p.function = none) (hglobal : globalAt? line.text = some d)
    (ha : a.addGlobal current file.path line (file.location line) d = .ok a')
    (hsame : p'.functions = p.functions) : Declares [⟨file, line, p⟩] a a' p p' := by
  obtain ⟨-, added, rfl, htargets, hexpressions⟩ := addGlobal_eq_ok ha
  have hfunction : Visit.function? ⟨file, line, p⟩ = none := by
    simp [Visit.function?, houtside, functionAt?_of_globalAt? hglobal]
  have hinitial : added.map (fun i => (i.target, i.expression)) =
      d.initial.toList.map fun e => ((⟨d.name, a.next, file.location line⟩ : Variable), e) := by
    rw [← hexpressions, List.map_map]
    apply List.map_congr_left
    intro i hi
    simp [(htargets i hi).1]
  refine ⟨⟨[(⟨d.name, a.next, file.location line⟩, d.initial)], ?_, rfl, ?_⟩, ?_, ?_⟩
  · simp [Visit.global?, houtside, hglobal]
  · rw [List.map_append, hinitial]
    cases d.initial <;> simp
  · simp [hfunction]
  · simp [hfunction, hsame]

/-- The two passes go over a line side by side. -/
theorem Aligned.step (h : Aligned depth p) (htext : trim line.text = line.text)
    (ha : Allocation.line current file (depth, a) line = .ok (depth', a'))
    (hp : p.line file path line = .ok p') :
    Aligned depth' p' ∧ Declares [⟨file, line, p⟩] a a' p p' := by
  have hp' := atLine_eq_ok.mp hp
  cases hfunction : p.function with
  | none =>
    obtain rfl := h.outside.mpr hfunction
    have hblocks := h.closed hfunction
    have hmoved : (p.moveTo path line.number).function = none := hfunction
    simp only [hmoved] at hp'
    have hkind := Allocation.topLine_kind (atLine_eq_ok.mp ha)
    rcases Pass.topLine_kind hp' with ⟨rfl, hnone⟩ | ⟨name, hname, hopen⟩
    · have hstill : Aligned 0 (p.moveTo path line.number) := .of_outside hmoved hblocks
      cases hkind with
      | global hglobal hadd =>
        exact ⟨hstill, Allocation.addGlobal_declares hfunction hglobal hadd rfl⟩
      | function hglobal hopens => simp [hnone] at hopens
      | nothing hglobal _ =>
        refine ⟨hstill, .nothing ?_ ?_ rfl⟩
        · simp [Visit.global?, hglobal]
        · simp [Visit.function?, hnone]
    · obtain ⟨hopened, hkept, hfunctions⟩ := Pass.openFunction_keeps hopen
      cases hkind with
      | global hglobal hadd => simp [functionAt?_of_globalAt? hglobal] at hname
      | nothing _ hnone => simp [hnone] at hname
      | function hglobal hopens =>
        obtain rfl := Option.some.inj (hname.symm.trans hopens)
        have hfound : Visit.function? ⟨file, line, p⟩ = some name := by
          simp [Visit.function?, hfunction, hname]
        have hvariable : Visit.global? ⟨file, line, p⟩ = none := by
          simp [Visit.global?, hglobal]
        refine ⟨.of_inside (by simp [hopened]) ?_,
          ⟨[], by simp [hvariable], by simp, by simp⟩, by simp [hfound], ?_⟩
        · rw [hkept]
          simp [Pass.moveTo, hblocks]
        · rw [hfunctions]
          simp [hfound, Pass.moveTo]
  | some function =>
    have hmoved : (p.moveTo path line.number).function = some function := hfunction
    simp only [hmoved] at hp'
    have hinside : p.function ≠ none := by simp [hfunction]
    have hnests := Pass.innerLine_nests htext hp'
    obtain ⟨depth, rfl⟩ : ∃ d, depth = d + 1 := ⟨_, (h.inside hinside).trans (Nat.add_comm 1 _)⟩
    obtain ⟨rfl, rfl⟩ := Prod.mk.inj (Except.ok.inj ha)
    have hmovedAligned : Aligned (depth + 1) (p.moveTo path line.number) :=
      ⟨h.outside, h.inside, h.closed⟩
    refine ⟨hmovedAligned.nests hinside hnests, .nothing ?_ ?_ ?_⟩
    · simp [Visit.global?, hfunction]
    · simp [Visit.function?, hfunction]
    · exact (Pass.Writes.innerLine hp').functions

end

/-- Two visits of one line, with a depth that is told by what is open. -/
structure Visit.Agree (v : Visit Nat) (w : Visit Pass) : Prop where
  file : v.file = w.file
  line : v.line = w.line
  aligned : Aligned v.state w.state

section

variable {current : List String} {a a' : Allocation} {p p' : Pass}

theorem Aligned.steps {file : SourceFile} {path : Path} {ls : List SourceLine} {depth : Nat}
    {s : Nat × Allocation} (h : Aligned depth p) (htexts : ∀ l ∈ ls, trim l.text = l.text)
    (ha : ls.foldlM (Allocation.line current file) (depth, a) = .ok s)
    (hp : ls.foldlM (fun p l => p.line file path l) p = .ok p') :
    ∃ vs ws, stepsOf (Allocation.line current file) (depth, a) ls = .ok vs ∧
      stepsOf (fun p l => p.line file path l) p ls = .ok ws ∧
      List.Forall₂ Visit.Agree (vs.map fun s => ⟨file, s.2, s.1.1⟩)
        (ws.map fun s => ⟨file, s.2, s.1⟩) ∧
      ws.map Prod.snd = ls ∧
      Declares (ws.map fun s => ⟨file, s.2, s.1⟩) a s.2 p p' ∧ Aligned s.1 p' := by
  induction ls generalizing depth a p with
  | nil =>
    obtain rfl := Except.ok.inj ha
    obtain rfl := Except.ok.inj hp
    exact ⟨[], [], rfl, rfl, .nil, rfl, .nothing rfl rfl rfl, h⟩
  | cons l rest ih =>
    rw [List.foldlM_cons] at ha hp
    obtain ⟨⟨depth₁, a₁⟩, ha₁, ha⟩ := bind_eq_ok.mp ha
    obtain ⟨p₁, hp₁, hp⟩ := bind_eq_ok.mp hp
    obtain ⟨h₁, hdeclares⟩ := h.step (htexts l List.mem_cons_self) ha₁ hp₁
    obtain ⟨vs, ws, hvs, hws, hagree, hlines, hrest, hend⟩ :=
      ih h₁ (fun l hl => htexts l (List.mem_cons_of_mem _ hl)) ha hp
    refine ⟨((depth, a), l) :: vs, (p, l) :: ws, ?_, ?_, ?_, ?_, hdeclares.trans hrest, hend⟩
    · simp [stepsOf, ha₁, hvs]
    · simp [stepsOf, hp₁, hws]
    · exact .cons ⟨rfl, rfl, h⟩ hagree
    · rw [List.map_cons, hlines]

theorem Allocation.addFile_eq_ok {f : SourceFile} (h : a.addFile current f = .ok a') :
    ∃ depth, (sourceLines f.text).foldlM (line current f) (0, a) = .ok (depth, a') := by
  rw [addFile, addLines_eq_foldlM] at h
  cases hfold : (sourceLines f.text).foldlM (line current f) (0, a) with
  | error e => simp [hfold, Except.map] at h
  | ok s =>
    obtain rfl : s.2 = a' := by simpa [hfold, Except.map] using h
    exact ⟨s.1, rfl⟩

theorem Pass.file_eq_ok_iff {f : SourceFile} : p.file current f = .ok p' ↔
    ∃ path, canonical current f.path = .ok path ∧
      (sourceLines f.text).foldlM (fun p l => p.line f path l) p = .ok p' ∧
      p'.openAtEnd? = none := by
  unfold file
  constructor
  · intro h
    obtain ⟨path, hpath, h⟩ := bind_eq_ok.mp h
    obtain ⟨q, hq, h⟩ := bind_eq_ok.mp h
    cases hopen : q.openAtEnd? with
    | some fault => simp [hopen] at h
    | none =>
      simp only [hopen] at h
      obtain rfl := Except.ok.inj h
      exact ⟨path, hpath, hq, hopen⟩
  · rintro ⟨path, hpath, hlines, hopen⟩
    simp only [hpath, hlines, hopen, ok_bind, pure_eq_ok]

theorem Pass.file_eq_ok {f : SourceFile} (h : p.file current f = .ok p') :
    ∃ path, canonical current f.path = .ok path ∧
      (sourceLines f.text).foldlM (fun p l => p.line f path l) p = .ok p' ∧
      p'.function = none ∧ p'.blocks = [] := by
  obtain ⟨path, hpath, hlines, hopen⟩ := file_eq_ok_iff.mp h
  refine ⟨path, hpath, hlines, ?_⟩
  unfold openAtEnd? at hopen
  split_ifs at hopen with hfunction hpending hblocks
  exact ⟨by simpa using hfunction, by simpa using hblocks⟩

theorem Aligned.files {files : List SourceFile} (hfunction : p.function = none)
    (hblocks : p.blocks = []) (ha : files.foldlM (Allocation.addFile current) a = .ok a')
    (hp : files.foldlM (Pass.file current) p = .ok p') :
    ∃ vs ws, Allocation.visits current a files = .ok vs ∧ Pass.visits current p files = .ok ws ∧
      List.Forall₂ Visit.Agree vs ws ∧
      ws.map (fun w => (w.file, w.line)) =
        files.flatMap (fun f => (sourceLines f.text).map fun l => (f, l)) ∧
      Declares ws a a' p p' := by
  induction files generalizing a p with
  | nil =>
    obtain rfl := Except.ok.inj ha
    obtain rfl := Except.ok.inj hp
    exact ⟨[], [], rfl, rfl, .nil, rfl, .nothing rfl rfl rfl⟩
  | cons f rest ih =>
    rw [List.foldlM_cons] at ha hp
    obtain ⟨a₁, ha₁, ha⟩ := bind_eq_ok.mp ha
    obtain ⟨p₁, hp₁, hp⟩ := bind_eq_ok.mp hp
    obtain ⟨depth, hlines⟩ := Allocation.addFile_eq_ok ha₁
    obtain ⟨path, hpath, hsteps, hfunction₁, hblocks₁⟩ := Pass.file_eq_ok hp₁
    -- A file starts outside functions, so at depth 0.
    have hstart : Aligned 0 p := .of_outside hfunction hblocks
    obtain ⟨vs, ws, hvs, hws, hagree, hcovers, hdeclares, -⟩ :=
      hstart.steps (fun l hl => trim_of_mem_sourceLines hl) hlines hsteps
    obtain ⟨vs', ws', hvs', hws', hagree', hcovers', hdeclares'⟩ :=
      ih hfunction₁ hblocks₁ ha hp
    refine ⟨_, _, ?_, ?_, List.rel_append hagree hagree', ?_, hdeclares.trans hdeclares'⟩
    · simp [Allocation.visits, hvs, ha₁, hvs']
    · simp [Pass.visits, hpath, hws, hp₁, hws']
    · rw [List.map_append, hcovers', List.flatMap_cons, ← hcovers, List.map_map, List.map_map]
      rfl

end

end Toolchain6502.C
